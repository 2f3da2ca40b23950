import Mathlib.LinearAlgebra.Matrix.PosDef
import Mathlib.Tactic.NoncommRing

/-!
# The Joseph form of a covariance update

A measurement with the matrix `H` and the noise `N` replaces the covariance `P` by
`(1 - K * H) * P * (1 - K * H)ᵀ + K * N * Kᵀ`. That is a covariance again whatever
the gain `K` is, so it tells nothing about the gain.

What the update gains does: `sub_joseph` is the difference for a gain that was
computed with any symmetric matrix in the place of the innovation covariance.

The two instances of it are the usual update, where the difference is a square, and the update
with the gain of the noise alone, where it may have any sign.
-/

namespace JosephForm

universe u v w

open Matrix

variable {n : Type u} {m : Type v} {R : Type w} [Fintype n] [Fintype m] [DecidableEq n]

section Ring

variable [CommRing R] (P : Matrix n n R) (K : Matrix n m R) (H : Matrix m n R) (N : Matrix m m R)

/-- The covariance after an update with the gain `K`. -/
def joseph : Matrix n n R := (1 - K * H) * P * (1 - K * H)ᵀ + K * N * Kᵀ

/-- The covariance of the innovation. -/
def innovation (P : Matrix n n R) (H : Matrix m n R) (N : Matrix m m R) : Matrix m m R :=
  H * P * Hᵀ + N

variable {P K H N} {S : Matrix m m R}

/-- The update, multiplied out. -/
theorem joseph_eq (hP : P.IsSymm) :
    joseph P K H N = P - K * H * P - (K * H * P)ᵀ + K * innovation P H N * Kᵀ := by
  have hcross : (K * H * P)ᵀ = P * (K * H)ᵀ := by rw [transpose_mul, hP.eq]
  have hquad : K * innovation P H N * Kᵀ = K * H * P * (K * H)ᵀ + K * N * Kᵀ := by
    rw [innovation, Matrix.mul_add, Matrix.add_mul, transpose_mul]
    simp only [Matrix.mul_assoc]
  rw [joseph, hcross, hquad, transpose_sub, transpose_one]
  noncomm_ring

/-- **What the update takes off.** The gain belongs to `S`, which need not be the covariance
of the innovation. -/
theorem sub_joseph (hP : P.IsSymm) (hS : S.IsSymm) (hK : K * S = P * Hᵀ) :
    P - joseph P K H N = K * (S + S - innovation P H N) * Kᵀ := by
  have hcross : K * H * P = K * S * Kᵀ := by
    have htranspose : (K * S)ᵀ = H * P := by
      rw [hK, transpose_mul, transpose_transpose, hP.eq]
    rw [Matrix.mul_assoc, ← htranspose, transpose_mul, hS.eq, Matrix.mul_assoc]
  have hsymm : (K * S * Kᵀ)ᵀ = K * S * Kᵀ := by
    rw [transpose_mul, transpose_mul, transpose_transpose, hS.eq, Matrix.mul_assoc]
  rw [joseph_eq hP, hcross, hsymm, Matrix.mul_sub, Matrix.sub_mul, Matrix.mul_add, Matrix.add_mul]
  abel

/-- With the gain of the innovation covariance. -/
theorem sub_joseph_of_gain (hP : P.IsSymm) (hN : N.IsSymm)
    (hK : K * innovation P H N = P * Hᵀ) :
    P - joseph P K H N = K * innovation P H N * Kᵀ := by
  have hS : (innovation P H N).IsSymm := by
    rw [IsSymm, innovation, transpose_add, transpose_mul, transpose_mul, transpose_transpose,
      hP.eq, hN.eq, Matrix.mul_assoc]
  rw [sub_joseph hP hS hK, add_sub_cancel_right]

/-- With the gain of the noise alone. -/
theorem sub_joseph_of_noise (hP : P.IsSymm) (hN : N.IsSymm) (hK : K * N = P * Hᵀ) :
    P - joseph P K H N = K * (N - H * P * Hᵀ) * Kᵀ := by
  rw [sub_joseph hP hN hK, innovation]
  congr 2
  abel

end Ring

section Order

variable [CommRing R] [PartialOrder R] [StarRing R] [TrivialStar R]
variable {P : Matrix n n R} {K : Matrix n m R} {H : Matrix m n R} {N : Matrix m m R}

omit [DecidableEq n] in
/-- A congruence keeps a covariance one. -/
theorem posSemidef_mul_mul_transpose {l : Type v} [Fintype l] (hP : P.PosSemidef)
    (B : Matrix l n R) : (B * P * Bᵀ).PosSemidef := by
  have hstar := hP.mul_mul_conjTranspose_same B
  rwa [conjTranspose_eq_transpose_of_trivial] at hstar

/-- **Any gain will do** for the result to be a covariance: it is a sum of two congruences, one
of the old covariance and one of the noise. That is what the Joseph form is for, and why no
property of the gain is needed. -/
theorem joseph_posSemidef [AddLeftMono R] (hP : P.PosSemidef) (hN : N.PosSemidef) :
    (joseph P K H N).PosSemidef :=
  (posSemidef_mul_mul_transpose hP (1 - K * H)).add (posSemidef_mul_mul_transpose hN K)

omit [DecidableEq n] in
/-- So is the covariance of an innovation. -/
theorem innovation_posSemidef [AddLeftMono R] (hP : P.PosSemidef) (hN : N.PosSemidef) :
    (innovation P H N).PosSemidef :=
  (posSemidef_mul_mul_transpose hP H).add hN

omit [Fintype n] [DecidableEq n] in
/-- A positive semidefinite matrix is symmetric, where conjugation does nothing. -/
theorem isSymm_of_posSemidef (hP : P.PosSemidef) : P.IsSymm := by
  have hherm := hP.isHermitian.eq
  rwa [conjTranspose_eq_transpose_of_trivial] at hherm

end Order

end JosephForm
