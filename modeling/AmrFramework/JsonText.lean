import Mathlib.Algebra.Ring.Nat
import Mathlib.Data.List.Basic

/-!
# JSON texts

The grammar of RFC 8259, as relations between a text, what its first token or value means, and
the rest of the text. A string is decoded as it is read; an escape that names one half of a
surrogate pair alone stands for no character.

* `chars_iff` — a string that decodes to the text that stands where the string does: no character
  of it has a meaning of its own;
* `isNumber_decimal` — an integer in decimal is a number.
-/

namespace JsonText

/-- A value; a number is kept as it is written, and members are kept in order, also those with
equal names. -/
inductive Json
  | null
  | bool (b : Bool)
  | num (lexeme : List Char)
  | str (s : List Char)
  | arr (items : List Json)
  | obj (members : List (List Char × Json))

/-! ## White space and numbers

The grammar of numbers, in the words of the standard. No value is computed: a number is kept as
it is written. -/

def isWs (c : Char) : Bool := c = ' ' || c = '\t' || c = '\n' || c = '\r'

def skipWs (cs : List Char) : List Char := cs.dropWhile isWs

/-- `1*DIGIT` -/
def Digits (cs : List Char) : Prop := cs ≠ [] ∧ ∀ c ∈ cs, c.isDigit = true

/-- No leading zero. -/
def IsInt (cs : List Char) : Prop := Digits cs ∧ (cs.head? = some '0' → cs = ['0'])

def IsFrac (cs : List Char) : Prop := cs = [] ∨ ∃ ds, cs = '.' :: ds ∧ Digits ds

def IsExp (cs : List Char) : Prop :=
  cs = [] ∨ ∃ e sign ds, cs = e :: (sign ++ ds) ∧ (e = 'e' ∨ e = 'E') ∧
    (sign = [] ∨ sign = ['+'] ∨ sign = ['-']) ∧ Digits ds

def IsNumber (cs : List Char) : Prop :=
  ∃ minus int frac exp, cs = minus ++ (int ++ (frac ++ exp)) ∧ (minus = [] ∨ minus = ['-']) ∧
    IsInt int ∧ IsFrac frac ∧ IsExp exp

/-! ## Strings

A string is read from its opening quotation mark on, one character or one escape at a time. -/

/-- A character that stands for itself. -/
def Unescaped (c : Char) : Prop := ' ' ≤ c ∧ c ≠ '"' ∧ c ≠ '\\'

instance : DecidablePred Unescaped := fun _ => inferInstanceAs (Decidable (_ ∧ _))

theorem unescaped_of_all {cs : List Char} (h : cs.all (fun c => decide (Unescaped c)) = true) :
    ∀ c ∈ cs, Unescaped c :=
  fun c hc => of_decide_eq_true (List.all_eq_true.mp h c hc)

/-- What the letter after a backslash stands for. -/
def shortEscape : Char → Option Char
  | '"' => some '"'
  | '\\' => some '\\'
  | '/' => some '/'
  | 'b' => some '\x08'
  | 'f' => some '\x0c'
  | 'n' => some '\n'
  | 'r' => some '\r'
  | 't' => some '\t'
  | _ => none

def hexDigit (c : Char) : Option Nat :=
  if c.isDigit then some (c.toNat - '0'.toNat)
  else if 'a' ≤ c ∧ c ≤ 'f' then some (c.toNat - 'a'.toNat + 10)
  else if 'A' ≤ c ∧ c ≤ 'F' then some (c.toNat - 'A'.toNat + 10)
  else none

/-- Four hexadecimal digits. -/
def hex4 (a b c d : Char) : Option Nat := do
  return ((← hexDigit a) * 16 + (← hexDigit b)) * 256 + ((← hexDigit c) * 16 + (← hexDigit d))

/-- An escape, and the character it stands for: a short one, four hexadecimal digits, or eight of
them as a surrogate pair. -/
inductive Escape : List Char → Char → Prop
  | short {e ch : Char} : shortEscape e = some ch → Escape ['\\', e] ch
  | unicode {a b c d ch : Char} : hex4 a b c d = some ch.toNat → Escape ['\\', 'u', a, b, c, d] ch
  /-- a surrogate pair -/
  | pair {a b c d e f g h ch : Char} {high low : Nat} :
      hex4 a b c d = some high → hex4 e f g h = some low →
      0xD800 ≤ high → high < 0xDC00 → 0xDC00 ≤ low → low < 0xE000 →
      ch.toNat = 0x10000 + (high - 0xD800) * 0x400 + (low - 0xDC00) →
      Escape ['\\', 'u', a, b, c, d, '\\', 'u', e, f, g, h] ch

/-- After an opening quotation mark: the text, the string, and the rest after the closing one.
The string ends at the first mark that is not escaped. -/
inductive Chars : List Char → List Char → List Char → Prop
  | close {r : List Char} : Chars ('"' :: r) [] r
  | plain {c : Char} {t s r : List Char} : Unescaped c → Chars t s r → Chars (c :: t) (c :: s) r
  | escape {e : List Char} {c : Char} {t s r : List Char} :
      Escape e c → Chars t s r → Chars (e ++ t) (c :: s) r

/-! ## Values

Three relations by recursion on one another. Each says which text is read, what it means, and
what is left of the text. -/

mutual

/-- The text, the value that it starts with, and the rest. White space before the value has been
skipped by whoever asks for one. -/
inductive Value : List Char → Json → List Char → Prop
  | nullLit {t r : List Char} : t = "null".toList ++ r → Value t .null r
  | trueLit {t r : List Char} : t = "true".toList ++ r → Value t (.bool true) r
  | falseLit {t r : List Char} : t = "false".toList ++ r → Value t (.bool false) r
  | number {t l r : List Char} : t = l ++ r → IsNumber l → Value t (.num l) r
  | string {t t' s r : List Char} : t = '"' :: t' → Chars t' s r → Value t (.str s) r
  | noItems {t t' r : List Char} : t = '[' :: t' → skipWs t' = ']' :: r → Value t (.arr []) r
  | array {t t' r : List Char} {vs : List Json} :
      t = '[' :: t' → Items (skipWs t') vs r → Value t (.arr vs) r
  | noMembers {t t' r : List Char} :
      t = '\x7b' :: t' → skipWs t' = '\x7d' :: r → Value t (.obj []) r
  | object {t t' r : List Char} {ms : List (List Char × Json)} :
      t = '\x7b' :: t' → Members (skipWs t') ms r → Value t (.obj ms) r

/-- The items of an array, with its closing bracket. -/
inductive Items : List Char → List Json → List Char → Prop
  | last {t t₁ r : List Char} {v : Json} :
      Value t v t₁ → skipWs t₁ = ']' :: r → Items t [v] r
  | more {t t₁ t₂ r : List Char} {v : Json} {vs : List Json} :
      Value t v t₁ → skipWs t₁ = ',' :: t₂ → Items (skipWs t₂) vs r → Items t (v :: vs) r

/-- The members of an object, with its closing brace. -/
inductive Members : List Char → List (List Char × Json) → List Char → Prop
  | last {t t' t₁ t₂ t₃ r k : List Char} {v : Json} :
      t = '"' :: t' → Chars t' k t₁ → skipWs t₁ = ':' :: t₂ → Value (skipWs t₂) v t₃ →
      skipWs t₃ = '\x7d' :: r → Members t [(k, v)] r
  | more {t t' t₁ t₂ t₃ t₄ r k : List Char} {v : Json} {ms : List (List Char × Json)} :
      t = '"' :: t' → Chars t' k t₁ → skipWs t₁ = ':' :: t₂ → Value (skipWs t₂) v t₃ →
      skipWs t₃ = ',' :: t₄ → Members (skipWs t₄) ms r → Members t ((k, v) :: ms) r

end

/-- A text that is one value. -/
def Text (t : List Char) (v : Json) : Prop := ∃ r, Value (skipWs t) v r ∧ skipWs r = []

/-! ## What a string decodes to

The first quotation mark that closes a string is not the first one in the text if that one was
escaped. Counting how far it is away shows that an escape always costs something. -/

theorem hexDigit_ne_quote {c : Char} {n : Nat} (h : hexDigit c = some n) : c ≠ '"' := by
  rintro rfl
  have hnone : hexDigit '"' = none := by decide
  exact Option.some_ne_none n (h.symm.trans hnone)

theorem hex4_no_quote {a b c d : Char} {n : Nat} (h : hex4 a b c d = some n) :
    '"' ∉ [a, b, c, d] := by
  simp only [hex4, Option.pure_def, Option.bind_eq_bind, Option.bind_eq_some_iff] at h
  obtain ⟨_, ha, _, hb, _, hc, _, hd, -⟩ := h
  simp [(hexDigit_ne_quote ha).symm, (hexDigit_ne_quote hb).symm, (hexDigit_ne_quote hc).symm,
    (hexDigit_ne_quote hd).symm]

/-- An escape is longer than what it stands for, and has a quotation mark in it only if it stands
for one. -/
theorem Escape.spec {e : List Char} {c : Char} (h : Escape e c) :
    ∃ e', e = '\\' :: e' ∧ e' ≠ [] ∧ (c = '"' ∨ '"' ∉ e') := by
  cases h with
  | short h =>
    refine ⟨_, rfl, List.cons_ne_nil _ _, ?_⟩
    rename_i x
    by_cases hx : x = '"'
    · subst hx
      exact .inl (Option.some.inj h).symm
    · exact .inr fun hmem => hx (List.mem_singleton.mp hmem).symm
  | unicode h =>
    refine ⟨_, rfl, List.cons_ne_nil _ _, .inr ?_⟩
    exact List.not_mem_cons_of_ne_of_not_mem (by decide) (hex4_no_quote h)
  | pair hhigh hlow =>
    refine ⟨_, rfl, List.cons_ne_nil _ _, .inr ?_⟩
    have hfirst := hex4_no_quote hhigh
    have hsecond := hex4_no_quote hlow
    simp only [List.mem_cons, not_or] at hfirst hsecond ⊢
    refine ⟨by decide, hfirst.1, hfirst.2.1, hfirst.2.2.1, hfirst.2.2.2.1, by decide, by decide,
      hsecond⟩

/-- A text up to its first quotation mark. -/
def upToQuote (cs : List Char) : List Char := cs.takeWhile (· ≠ '"')

theorem upToQuote_cons {c : Char} (hc : c ≠ '"') (cs : List Char) :
    upToQuote (c :: cs) = c :: upToQuote cs :=
  List.takeWhile_cons_of_pos (decide_eq_true hc)

@[simp] theorem upToQuote_quote (cs : List Char) : upToQuote ('"' :: cs) = [] := rfl

theorem upToQuote_append (a rest : List Char) : upToQuote (a ++ '"' :: rest) = upToQuote a := by
  induction a with
  | nil => rfl
  | cons c a ih =>
    by_cases hc : c = '"'
    · rw [hc]
      rfl
    · rw [List.cons_append, upToQuote_cons hc, upToQuote_cons hc, ih]

theorem length_upToQuote_le (a u : List Char) :
    (upToQuote a).length ≤ (upToQuote (a ++ u)).length := by
  induction a with
  | nil => exact Nat.zero_le _
  | cons c a ih =>
    by_cases hc : c = '"'
    · rw [hc]
      exact Nat.zero_le _
    · rw [List.cons_append, upToQuote_cons hc, upToQuote_cons hc]
      exact Nat.succ_le_succ ih

/-- Every escape brings the first quotation mark of the string nearer than that of the text. By
induction on the derivation, one case for each way to read on. -/
theorem Chars.spec {t s r : List Char} (h : Chars t s r) :
    (upToQuote s).length < (upToQuote t).length ∨
      (∀ c ∈ s, Unescaped c) ∧ t = s ++ '"' :: r := by
  induction h with
  | close => exact .inr ⟨List.forall_mem_nil _, rfl⟩
  | plain hc h ih =>
    rw [upToQuote_cons hc.2.1, upToQuote_cons hc.2.1, List.length_cons, List.length_cons]
    obtain hlt | ⟨hs, ht⟩ := ih
    · exact .inl (Nat.succ_lt_succ hlt)
    · exact .inr ⟨List.forall_mem_cons.mpr ⟨hc, hs⟩, congrArg _ ht⟩
  | @escape e c t s r he h ih =>
    left
    obtain ⟨e', rfl, hne, hquote⟩ := he.spec
    have hback : ('\\' : Char) ≠ '"' := by decide
    have hpos := List.length_pos_iff.mpr hne
    have hle : (upToQuote s).length ≤ (upToQuote t).length := by
      obtain hlt | ⟨hs, ht⟩ := ih
      · exact Nat.le_of_lt hlt
      · exact Nat.le_of_eq (by rw [ht, upToQuote_append])
    rw [List.cons_append, upToQuote_cons hback, List.length_cons]
    by_cases hc : c = '"'
    · rw [hc, upToQuote_quote, List.length_nil]
      exact Nat.succ_pos _
    · have hall : ∀ x ∈ e', decide (x ≠ '"') = true := by
        intro x hx
        exact decide_eq_true fun hxq => hquote.resolve_left hc (hxq ▸ hx)
      rw [upToQuote_cons hc, List.length_cons, upToQuote, upToQuote,
        List.takeWhile_append_of_pos hall, List.length_append]
      rw [upToQuote, upToQuote] at hle
      omega

variable {a u r rest : List Char}

/-- **A string decodes to what stands there** when no character of it has a meaning of its own,
whatever is made of what follows. -/
theorem chars_iff : Chars (a ++ '"' :: rest) (a ++ u) r ↔
    (∀ c ∈ a, Unescaped c) ∧ u = [] ∧ r = rest := by
  refine ⟨?_, ?_⟩
  · intro h
    obtain hlt | ⟨hall, hsplit⟩ := h.spec
    · rw [upToQuote_append] at hlt
      exact absurd hlt (Nat.not_lt.mpr (length_upToQuote_le a u))
    · rw [List.append_assoc, List.append_cancel_left_eq] at hsplit
      obtain ⟨ha, hu⟩ := List.forall_mem_append.mp hall
      cases u with
      | nil => exact ⟨ha, rfl, (List.cons.inj hsplit).2.symm⟩
      | cons c u =>
        have hc := (hu c List.mem_cons_self).2.1
        exact absurd (List.cons.inj hsplit).1.symm hc
  · rintro ⟨ha, rfl, rfl⟩
    rw [List.append_nil]
    induction a with
    | nil => exact .close
    | cons c a ih =>
      obtain ⟨hc, ha⟩ := List.forall_mem_cons.mp ha
      exact .plain hc (ih ha)

theorem chars_self_iff :
    Chars (a ++ '"' :: rest) a r ↔ (∀ c ∈ a, Unescaped c) ∧ r = rest := by
  have h := @chars_iff a [] r rest
  rw [List.append_nil] at h
  exact h.trans (and_congr_right fun _ => and_iff_right rfl)

/-! ## Members, one by one

Equivalences, so that a text can be taken apart as well as put together. -/

variable {t k l : List Char} {v : Json} {m : List Char × Json} {ms : List (List Char × Json)}

theorem value_num_iff : Value t (.num l) r ↔ t = l ++ r ∧ IsNumber l := by
  refine ⟨?_, ?_⟩
  · rintro (_ | _ | _ | ⟨ht, hl⟩)
    exact ⟨ht, hl⟩
  · rintro ⟨ht, hl⟩
    exact .number ht hl

theorem value_str_iff : Value ('"' :: t) (.str k) r ↔ Chars t k r := by
  refine ⟨?_, ?_⟩
  · rintro (_ | _ | _ | _ | ⟨ht, hk⟩)
    obtain ⟨-, rfl⟩ := List.cons.inj ht
    exact hk
  · exact Value.string rfl

theorem skipWs_of_not {c : Char} (hc : isWs c = false) (cs : List Char) :
    skipWs (c :: cs) = c :: cs := by
  rw [skipWs, List.dropWhile_cons_of_neg]
  rw [hc]
  exact Bool.false_ne_true

theorem isWs_of_isDigit {c : Char} (hc : c.isDigit = true) : isWs c = false := by
  by_contra hws
  simp only [isWs, Bool.or_eq_true, decide_eq_true_eq, Bool.not_eq_false] at hws
  obtain ((rfl | rfl) | rfl) | rfl := hws <;> exact absurd hc (by decide)

theorem skipWs_cons_iff {c : Char} (hc : isWs c = false) {cs ds : List Char} :
    skipWs (c :: cs) = c :: ds ↔ cs = ds := by
  rw [skipWs_of_not hc, List.cons.injEq]
  exact and_iff_right rfl

/-- A member whose name stands for itself, and another one after it. -/
theorem members_cons_iff (hk : ∀ c ∈ k, Unescaped c) :
    Members ('"' :: (k ++ '"' :: ':' :: t)) ((k, v) :: m :: ms) r ↔
      ∃ t₁ t₂, Value (skipWs t) v t₁ ∧ skipWs t₁ = ',' :: t₂ ∧
        Members (skipWs t₂) (m :: ms) r := by
  refine ⟨?_, ?_⟩
  · intro h
    cases h with
    | more ht hchars hcolon hvalue hcomma hrest =>
      obtain ⟨-, rfl⟩ := List.cons.inj ht
      obtain ⟨-, rfl⟩ := chars_self_iff.mp hchars
      obtain rfl := (skipWs_cons_iff (by decide)).mp hcolon
      exact ⟨_, _, hvalue, hcomma, hrest⟩
  · rintro ⟨t₁, t₂, hvalue, hcomma, hrest⟩
    exact .more rfl (chars_self_iff.mpr ⟨hk, rfl⟩) (skipWs_of_not (by decide) _) hvalue hcomma hrest

/-- The last one. -/
theorem members_last_iff (hk : ∀ c ∈ k, Unescaped c) :
    Members ('"' :: (k ++ '"' :: ':' :: t)) [(k, v)] r ↔
      ∃ t₁, Value (skipWs t) v t₁ ∧ skipWs t₁ = '\x7d' :: r := by
  refine ⟨?_, ?_⟩
  · intro h
    cases h with
    | last ht hchars hcolon hvalue hclose =>
      obtain ⟨-, rfl⟩ := List.cons.inj ht
      obtain ⟨-, rfl⟩ := chars_self_iff.mp hchars
      obtain rfl := (skipWs_cons_iff (by decide)).mp hcolon
      exact ⟨_, hvalue, hclose⟩
    | more _ _ _ _ _ hrest => cases hrest
  · rintro ⟨t₁, hvalue, hclose⟩
    exact .last rfl (chars_self_iff.mpr ⟨hk, rfl⟩) (skipWs_of_not (by decide) _) hvalue hclose

/-- A number starts with no white space. -/
theorem IsNumber.skipWs (hl : IsNumber l) (t : List Char) : skipWs (l ++ t) = l ++ t := by
  obtain ⟨minus, int, frac, exp, rfl, hminus, ⟨⟨hne, hdigits⟩, -⟩, -, -⟩ := hl
  obtain rfl | rfl := hminus
  · cases int with
    | nil => exact absurd rfl hne
    | cons c cs => exact skipWs_of_not (isWs_of_isDigit (hdigits c List.mem_cons_self)) _
  · exact skipWs_of_not (by decide) _

theorem members_num_iff (hk : ∀ c ∈ k, Unescaped c) (hl : IsNumber l) :
    Members ('"' :: (k ++ '"' :: ':' :: (l ++ ',' :: '"' :: t))) ((k, .num l) :: m :: ms) r ↔
      Members ('"' :: t) (m :: ms) r := by
  rw [members_cons_iff hk, hl.skipWs]
  refine ⟨?_, ?_⟩
  · rintro ⟨t₁, t₂, hvalue, hcomma, hrest⟩
    obtain ⟨ht, -⟩ := value_num_iff.mp hvalue
    rw [List.append_cancel_left_eq] at ht
    subst ht
    obtain rfl := (skipWs_cons_iff (by decide)).mp hcomma
    rwa [skipWs_of_not (by decide)] at hrest
  · intro hrest
    refine ⟨_, _, value_num_iff.mpr ⟨rfl, hl⟩, skipWs_of_not (by decide) _, ?_⟩
    rwa [skipWs_of_not (by decide)]

theorem members_str_iff (hk : ∀ c ∈ k, Unescaped c) :
    Members ('"' :: (k ++ '"' :: ':' :: '"' :: (a ++ '"' :: ',' :: '"' :: t)))
        ((k, .str (a ++ u)) :: m :: ms) r ↔
      ((∀ c ∈ a, Unescaped c) ∧ u = []) ∧ Members ('"' :: t) (m :: ms) r := by
  rw [members_cons_iff hk, skipWs_of_not (by decide)]
  refine ⟨?_, ?_⟩
  · rintro ⟨t₁, t₂, hvalue, hcomma, hrest⟩
    obtain ⟨ha, hu, rfl⟩ := chars_iff.mp (value_str_iff.mp hvalue)
    obtain rfl := (skipWs_cons_iff (by decide)).mp hcomma
    rw [skipWs_of_not (by decide)] at hrest
    exact ⟨⟨ha, hu⟩, hrest⟩
  · rintro ⟨⟨ha, hu⟩, hrest⟩
    refine ⟨_, _, value_str_iff.mpr (chars_iff.mpr ⟨ha, hu, rfl⟩), skipWs_of_not (by decide) _, ?_⟩
    rwa [skipWs_of_not (by decide)]

theorem members_str_self_iff (hk : ∀ c ∈ k, Unescaped c) :
    Members ('"' :: (k ++ '"' :: ':' :: '"' :: (a ++ '"' :: ',' :: '"' :: t)))
        ((k, .str a) :: m :: ms) r ↔
      (∀ c ∈ a, Unescaped c) ∧ Members ('"' :: t) (m :: ms) r := by
  have h := @members_str_iff a [] r t k m ms hk
  rw [List.append_nil] at h
  exact h.trans (and_congr_left fun _ => and_iff_left rfl)

theorem members_last_num_iff (hk : ∀ c ∈ k, Unescaped c) (hl : IsNumber l) :
    Members ('"' :: (k ++ '"' :: ':' :: (l ++ '\x7d' :: t))) [(k, .num l)] r ↔ r = t := by
  rw [members_last_iff hk, hl.skipWs]
  refine ⟨?_, ?_⟩
  · rintro ⟨t₁, hvalue, hclose⟩
    obtain ⟨ht, -⟩ := value_num_iff.mp hvalue
    rw [List.append_cancel_left_eq] at ht
    subst ht
    exact ((skipWs_cons_iff (by decide)).mp hclose).symm
  · rintro rfl
    exact ⟨_, value_num_iff.mpr ⟨rfl, hl⟩, skipWs_of_not (by decide) _⟩

/-- An object that is not empty. -/
theorem text_obj_iff : Text ('\x7b' :: '"' :: t) (.obj (m :: ms)) ↔
    ∃ r, Members ('"' :: t) (m :: ms) r ∧ skipWs r = [] := by
  rw [Text, skipWs_of_not (by decide)]
  refine exists_congr fun r => and_congr_left fun _ => ?_
  refine ⟨?_, ?_⟩
  · intro h
    cases h with
    | object ht hmembers =>
      obtain ⟨-, rfl⟩ := List.cons.inj ht
      rwa [skipWs_of_not (by decide)] at hmembers
  · intro h
    refine .object rfl ?_
    rwa [skipWs_of_not (by decide)]

/-! ## Integers in decimal

The format of `printf` for integers is within the grammar of numbers. -/

/-- What `%lu`, `%ld` and `%d` print. -/
def decimal : Int → List Char
  | .ofNat n => Nat.toDigits 10 n
  | .negSucc n => '-' :: Nat.toDigits 10 (n + 1)

theorem isInt_toDigits (n : Nat) : IsInt (Nat.toDigits 10 n) := by
  refine ⟨⟨Nat.toDigits_ne_nil, fun c hc =>
    Nat.isDigit_of_mem_toDigits (by decide) (by decide) hc⟩, ?_⟩
  induction n using Nat.strongRecOn with
  | ind n ih =>
    intro hhead
    obtain hlt | hge := Nat.lt_or_ge n 10
    · rw [Nat.toDigits_of_lt_base hlt] at hhead ⊢
      exact congrArg (fun c => [c]) (Option.some.inj hhead)
    · -- the first digit is that of a smaller number, which would be zero
      exfalso
      rw [Nat.toDigits_of_base_le (by decide) hge,
        List.head?_append_of_ne_nil _ Nat.toDigits_ne_nil] at hhead
      have hzero := ih (n / 10) (by omega) hhead
      have hvalue := congrArg (fun cs => Nat.ofDigitChars 10 cs 0) hzero
      simp only [Nat.ofDigitChars_ten_toDigits] at hvalue
      have : Nat.ofDigitChars 10 ['0'] 0 = 0 := by decide
      omega

theorem length_decimal_le {z : Int} {n : Nat} (hn : 0 < n) (h : z.natAbs < 10 ^ n) :
    (decimal z).length ≤ n + 1 := by
  cases z with
  | ofNat m => exact Nat.le_succ_of_le ((Nat.length_toDigits_le_iff (by decide) hn).mpr h)
  | negSucc m => exact Nat.succ_le_succ ((Nat.length_toDigits_le_iff (by decide) hn).mpr h)

/-- A minus sign or a digit. -/
theorem mem_decimal {z : Int} {c : Char} (hc : c ∈ decimal z) : 45 ≤ c.toNat ∧ c.toNat ≤ 57 := by
  have hdigit : ∀ n, c ∈ Nat.toDigits 10 n → 45 ≤ c.toNat ∧ c.toNat ≤ 57 := by
    intro n hmem
    obtain ⟨hlo, hhi⟩ := Char.isDigit_iff_toNat.mp
      (Nat.isDigit_of_mem_toDigits (by decide) (by decide) hmem)
    exact ⟨Nat.le_trans (by decide) hlo, hhi⟩
  cases z with
  | ofNat n => exact hdigit n hc
  | negSucc n =>
    obtain rfl | hc := List.mem_cons.mp hc
    · decide
    · exact hdigit (n + 1) hc

/-- **Every integer in decimal is a number.** There is no leading zero, and a minus sign is
allowed. -/
theorem isNumber_decimal (z : Int) : IsNumber (decimal z) := by
  cases z with
  | ofNat n =>
    refine ⟨[], _, [], [], ?_, .inl rfl, isInt_toDigits n, .inl rfl, .inl rfl⟩
    simp [decimal]
  | negSucc n =>
    refine ⟨['-'], _, [], [], ?_, .inr rfl, isInt_toDigits (n + 1), .inl rfl, .inl rfl⟩
    simp [decimal]

end JsonText
