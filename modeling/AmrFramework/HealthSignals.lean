import AmrFramework.HealthChain

/-!
# The signals about a child

A child is signalled alive on heartbeats of all its nodes that were fresh when
they were reported, and lost on a node that was silent for its timeout, but for
the distance of two checks. A report on which a node was silent for longer does
not leave its child alive.

This is the last link of the chain: the monitor ages heartbeats, its reports are accurate, the
feed turns reports into signals, and the state machines of the children act on those.
-/

namespace AmrFramework.Watchdog

open Monitoring Runs

/-- The messages delivered, newest first. -/
def messages (h : List ChainEvent) : List (List Monitoring.HealthStatus) :=
  h.filterMap fun
    | .delivered report _ => some report.message
    | _ => none

variable {probes : List ProbeConfig} {m : Mapping} {g : Nat} {s s' : HealthChain}
  {e : ChainEvent} {h : List ChainEvent} {f : HealthFeed}

/-- What holds between two callbacks: heartbeats have their true age up to the distance of two
checks, every report was accurate when it was published, and the feed has seen exactly the
reports delivered. -/
structure Informed (probes : List ProbeConfig) (m : Mapping) (g : Nat) (h : List ChainEvent)
    (s : HealthChain) : Prop where
  ages : Ages probes h s
  heard : ∀ name, Heard g s.clock (lastCheck h) (agedFrom name h) (heardAt name h)
  accurate : Always (fun e before => ∀ report, e = .published report →
    Accurate probes g report before) h
  topic : ∀ report ∈ s.topic, .published report ∈ h
  delivered : ∀ report signals, .delivered report signals ∈ h → .published report ∈ h
  feed : s.feed = (feedRun m (messages h)).1

/-- **One callback** keeps it. A heartbeat and a check are the monitor's business, a delivery is
the feed's, and the time that passes changes neither. -/
theorem Informed.step (hc : Informed probes m g h s) (hgaps : Gaps g (e :: h))
    (hstep : ChainStep s e s') : Informed probes m g (e :: h) s' := by
  have hheard := fun name => (hc.heard name).step hc.ages hgaps hstep
  have hages := hc.ages.step hstep
  cases hstep with
  | beat name hnow hstep =>
    refine ⟨hages, hheard, ⟨nofun, hc.accurate⟩, ?_, ?_, hc.feed⟩
    · exact fun report hmem => List.mem_cons_of_mem _ (hc.topic report hmem)
    · rintro report signals (_ | ⟨_, hmem⟩)
      exact List.mem_cons_of_mem _ (hc.delivered report signals hmem)
  | published env hnow hstep =>
    refine ⟨hages, hheard, ⟨?_, hc.accurate⟩, ?_, ?_, hc.feed⟩
    · rintro _ ⟨⟩
      exact accurate_report hc.ages hnow hc.heard env hgaps.1
    · intro report hmem
      obtain hmem | hmem := List.mem_append.mp hmem
      · exact List.mem_cons_of_mem _ (hc.topic report hmem)
      · obtain rfl := List.mem_singleton.mp hmem
        exact List.mem_cons_self ..
    · rintro report signals (_ | ⟨_, hmem⟩)
      exact List.mem_cons_of_mem _ (hc.delivered report signals hmem)
  | answered hnow hstep =>
    refine ⟨hages, hheard, ⟨nofun, hc.accurate⟩, ?_, ?_, hc.feed⟩
    · exact fun report hmem => List.mem_cons_of_mem _ (hc.topic report hmem)
    · rintro report signals (_ | ⟨_, hmem⟩)
      exact List.mem_cons_of_mem _ (hc.delivered report signals hmem)
  | @delivered report hreport =>
    refine ⟨hages, hheard, ⟨nofun, hc.accurate⟩, ?_, ?_, ?_⟩
    · exact fun report hmem =>
        List.mem_cons_of_mem _ (hc.topic report (List.mem_of_mem_erase hmem))
    · rintro report' signals (_ | ⟨_, hmem⟩)
      · exact List.mem_cons_of_mem _ (hc.topic report hreport)
      · exact List.mem_cons_of_mem _ (hc.delivered report' signals hmem)
    · rw [hc.feed]
      rfl

end AmrFramework.Watchdog
