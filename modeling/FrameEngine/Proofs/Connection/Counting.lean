import FrameEngine.Connection.Basic

/-!
# FrameEngine.Proofs.Connection.Counting

What a connection counts, it counts for its owner as well (`Counted`): both sets of counters take
the same tallies. None of these is a server's own, so they leave alone what a server counts of its
connections (`Metrics.gate`), and together they tell how many octets have been read.
-/

namespace FrameEngine

/-- A count of a connection's work. The others are of a server's. -/
def Tally.isOwn : Tally → Bool
  | .connectionEstablished | .connectionClosed | .connectionRefused => false
  | _ => true

/-- How many octets it says have been read. -/
def Tally.octets : Tally → Nat
  | .bytesRead n => n
  | _ => 0

/-- How many octets they say have been read, together. -/
def Tally.octetsOf : List Tally → Nat
  | [] => 0
  | t :: tallies => t.octets + octetsOf tallies

theorem Tally.octetsOf_append (first rest : List Tally) :
    octetsOf (first ++ rest) = octetsOf first + octetsOf rest := by
  induction first with
  | nil => exact (Nat.zero_add _).symm
  | cons t first ih => rw [List.cons_append, octetsOf, octetsOf, ih, Nat.add_assoc]

namespace Metrics

/-- What a server counts of its connections: how many there have been, are, and were refused. -/
def gate (m : Metrics) : UInt64 × UInt64 × UInt64 :=
  (m.connectionsTotal, m.connectionsActive, m.connectionsRefused)

theorem recordAll_append (m : Metrics) (first rest : List Tally) :
    m.recordAll (first ++ rest) = (m.recordAll first).recordAll rest :=
  List.foldl_append

theorem gate_record (m : Metrics) {t : Tally} (h : t.isOwn = true) :
    (m.record t).gate = m.gate := by
  cases t <;> first | rfl | cases h

theorem gate_recordAll {tallies : List Tally} (h : ∀ t ∈ tallies, t.isOwn = true) :
    ∀ m : Metrics, (m.recordAll tallies).gate = m.gate := by
  induction tallies with
  | nil => intro m; rfl
  | cons t tallies ih =>
    intro m
    have hrest := ih (fun u hu => h u (List.mem_cons_of_mem _ hu)) (m.record t)
    exact hrest.trans (gate_record m (h t List.mem_cons_self))

theorem bytesReceived_record (m : Metrics) (t : Tally) :
    (m.record t).bytesReceived = m.bytesReceived + .ofNat t.octets := by
  cases t with
  | bytesRead n => rfl
  | connectionClosed =>
    simp only [record]
    split <;> exact (UInt64.add_zero _).symm
  | _ => exact (UInt64.add_zero _).symm

theorem bytesReceived_recordAll (tallies : List Tally) :
    ∀ m : Metrics, (m.recordAll tallies).bytesReceived =
      m.bytesReceived + .ofNat (Tally.octetsOf tallies) := by
  induction tallies with
  | nil => intro m; exact (UInt64.add_zero _).symm
  | cons t tallies ih =>
    intro m
    have hrest := ih (m.record t)
    rw [bytesReceived_record] at hrest
    rw [Tally.octetsOf, UInt64.ofNat_add, ← UInt64.add_assoc]
    exact hrest

end Metrics

namespace Connection

/-- The counters of the connection and those of its owner have taken the same tallies, which tell of
its work and of so many octets read. -/
def Counted (n : Nat) (c c' : Connection) : Prop :=
  ∃ tallies : List Tally, (∀ t ∈ tallies, t.isOwn = true) ∧
    Tally.octetsOf tallies = n ∧ c'.metrics = c.metrics.recordAll tallies ∧
    c'.totals = c.totals.map (·.recordAll tallies)

variable {c c' c'' : Connection} {n k : Nat}

namespace Counted

theorem of_counters (hm : c'.metrics = c.metrics) (ht : c'.totals = c.totals) :
    Counted 0 c c' := by
  refine ⟨[], nofun, rfl, hm, ht.trans ?_⟩
  cases c.totals <;> rfl

theorem refl (c : Connection) : Counted 0 c c := of_counters rfl rfl

theorem trans (h : Counted n c c') (h' : Counted k c' c'') : Counted (n + k) c c'' := by
  obtain ⟨first, hown, hn, hm, ht⟩ := h
  obtain ⟨rest, hown', hk, hm', ht'⟩ := h'
  refine ⟨first ++ rest, fun t ht => ?_, ?_, ?_, ?_⟩
  · rcases List.mem_append.1 ht with ht | ht
    · exact hown t ht
    · exact hown' t ht
  · rw [Tally.octetsOf_append, hn, hk]
  · rw [hm', hm, Metrics.recordAll_append]
  · rw [ht', ht, Option.map_map]
    cases c.totals with
    | none => rfl
    | some m => exact congrArg some (Metrics.recordAll_append m first rest).symm

theorem record (c : Connection) {t : Tally} (h : t.isOwn = true) :
    Counted t.octets c (c.record t) := by
  refine ⟨[t], fun u hu => ?_, Nat.add_zero _, rfl, rfl⟩
  rw [List.mem_singleton.1 hu]
  exact h

/-- What the connection counts is how many octets it has read. -/
theorem bytesReceived (h : Counted n c c') :
    c'.metrics.bytesReceived = c.metrics.bytesReceived + .ofNat n := by
  obtain ⟨tallies, _, hn, hm, _⟩ := h
  rw [hm, Metrics.bytesReceived_recordAll, hn]

/-- What the owner counts of its connections is not touched. -/
theorem gate (h : Counted n c c') : c'.totals.map Metrics.gate = c.totals.map Metrics.gate := by
  obtain ⟨tallies, hown, _, _, ht⟩ := h
  rw [ht]
  cases c.totals with
  | none => rfl
  | some m => exact congrArg some (Metrics.gate_recordAll hown m)

end Counted

end Connection
end FrameEngine
