import FrameEngine.Proofs.Backoff
import FrameEngine.Proofs.Client.Slot

/-!
# FrameEngine.Proofs.Client.Dialing

A caller that opens a connection dials until an attempt decides. `verdict?` says when that is: at
the first socket, at the first failure that is final, or when one failure more has come than there
are retries. `wait` is the pause after the failure with a number.

Many callers open, use and close connections at the same time, and each step of the client is one of
somebody's. Of one caller `tries` tells what its attempts came to in a run, and `Dials` where it
stands after them. `dials_of_steps` says that every run keeps to this, and that every series of
outcomes that no earlier attempt decides comes about, with pauses that are no longer than they have
to be.
-/

namespace FrameEngine
namespace Client

/-! ## Verdicts -/

/-- What an attempt to dial comes to. -/
inductive Outcome where
  | connected (socket : Socket)
  /-- No answer in time. -/
  | timedOut
  | failed (f : IoFailure)
  deriving DecidableEq

/-- The error when no retry is left. Where there was none from the start, it is the failure. -/
def spentError (retries : Nat) (f : IoFailure) : EngineError :=
  if retries = 0 then if f.kind = .timedOut then .connectTimeout else .io f
  else .retriesExhausted retries f

/-- What comes of a failure that may be tried again, the last of so many attempts. -/
def retried? (retries attempts : Nat) (f : IoFailure) : Option (Except EngineError Socket) :=
  if attempts ≤ retries then none else some (.error (spentError retries f))

/-- What the last of so many attempts decides; none, if there has to be another. -/
def Outcome.verdict? (retries attempts : Nat) : Outcome → Option (Except EngineError Socket)
  | connected socket => some (.ok socket)
  | timedOut => retried? retries attempts (.ofKind .timedOut)
  | failed f =>
    if f.kind.isDialRetryable then retried? retries attempts f else some (.error (.io f))

/-- What a series of attempts decides, by the last of them. -/
def verdict? (retries : Nat) (os : List Outcome) : Option (Except EngineError Socket) :=
  os.getLast?.bind (Outcome.verdict? retries os.length)

/-- The pause after the failure with a number, the first being one. -/
def wait (s : ClientSetup) (i : Nat) : Span :=
  min (s.settings.retryDelay * 2 ^ (i - 1)) (max s.connection.retry.maxDelay s.settings.retryDelay)

theorem verdict?_concat (retries : Nat) (os : List Outcome) (o : Outcome) :
    verdict? retries (os ++ [o]) = o.verdict? retries (os.length + 1) := by
  simp [verdict?]

/-- The dialer of a caller after so many failures. -/
def dialerAfter (s : ClientSetup) (n : Nat) : Dialer :=
  ⟨(Dialer.new s.settings s.connection).backoff.spent n⟩

theorem spent_zero_new (base max : Span) (budget : Nat) (jitter : Binary64) :
    (Backoff.new base max budget jitter).spent 0 = .new base max budget jitter := rfl

theorem dialerAfter_zero (s : ClientSetup) :
    dialerAfter s 0 = .new s.settings s.connection := by
  rw [dialerAfter, Dialer.new, spent_zero_new]

variable {s : ClientSetup} {cl cl' : Client} {x : Label} {n : Nat}

/-- The settings hold spans, none of which is longer than the longest. -/
structure Spans (s : ClientSetup) : Prop where
  retryDelay : s.settings.retryDelay ≤ Span.longest
  maxDelay : s.connection.retry.maxDelay ≤ Span.longest

theorem delayAfter_eq_wait (s : ClientSetup) (n : Nat) :
    Backoff.delayAfter s.settings.retryDelay
      (max s.connection.retry.maxDelay s.settings.retryDelay) n = wait s (n + 1) := by
  cases n with
  | zero =>
    simp only [Backoff.delayAfter, wait, Nat.add_sub_cancel, Nat.pow_zero, Nat.mul_one]
    exact (Nat.min_eq_left (Nat.le_max_right _ _)).symm
  | succ n => rfl

/-- What an attempt comes to, as the dialer is told. -/
def Outcome.attempt : Outcome → Attempt
  | connected _ => .connected
  | timedOut => .timedOut
  | failed f => .failed f

/-- What is done after an attempt, by its verdict. -/
inductive Judged (s : ClientSetup) (n : Nat) (o : Outcome) : DialVerdict × Dialer → Prop where
  | again {why : IoFailure} (h : o.verdict? s.settings.maxRetries (n + 1) = none) :
      Judged s n o (.again (wait s (n + 1)) (n + 1) why, dialerAfter s (n + 1))
  | gaveUp {e : EngineError} (h : o.verdict? s.settings.maxRetries (n + 1) = some (.error e)) :
      Judged s n o (.gaveUp e, dialerAfter s n)
  | connected {socket : Socket} (h : o = .connected socket) :
      Judged s n o (.connected, dialerAfter s n)

theorem judged_of_failure {o : Outcome} {f : IoFailure} (hs : Spans s)
    (hn : n ≤ s.settings.maxRetries) (hf : Dialer.failure? o.attempt = .ok (some f))
    (ho : o.verdict? s.settings.maxRetries (n + 1) = retried? s.settings.maxRetries (n + 1) f) :
    Judged s n o ((dialerAfter s n).judge o.attempt) := by
  have hmax : (Dialer.new s.settings s.connection).backoff.max ≤ Span.longest :=
    Nat.max_le.2 ⟨hs.maxDelay, hs.retryDelay⟩
  rw [Dialer.judge, hf]
  obtain hlt | rfl := Nat.lt_or_eq_of_le hn
  · have hnext := Backoff.next?_spent hmax (i := n) hlt
    simp only [dialerAfter, hnext]
    refine (delayAfter_eq_wait s n) ▸ .again ?_
    rw [ho, retried?, if_pos (Nat.succ_le_of_lt hlt)]
  · have hnext := Backoff.next?_spent_of_le
      (b := (Dialer.new s.settings s.connection).backoff) (i := s.settings.maxRetries) (Nat.le_refl _)
    simp only [dialerAfter, hnext]
    refine .gaveUp ?_
    rw [ho, retried?, if_neg (Nat.not_succ_le_self _)]
    rfl

theorem judged (hs : Spans s) (hn : n ≤ s.settings.maxRetries) (o : Outcome) :
    Judged s n o ((dialerAfter s n).judge o.attempt) := by
  cases o with
  | connected socket => exact .connected rfl
  | timedOut => exact judged_of_failure hs hn rfl rfl
  | failed f =>
    by_cases hf : f.kind.isDialRetryable = true
    · refine judged_of_failure (f := f) hs hn ?_ ?_
      · simp only [Outcome.attempt, Dialer.failure?, hf, if_true]
      · simp only [Outcome.verdict?, hf, if_true]
    · have hfinal : Dialer.failure? (.failed f) = .error (.io f) := by
        simp only [Dialer.failure?, hf, if_false, Bool.false_eq_true]
      rw [Outcome.attempt, Dialer.judge, hfinal]
      refine .gaveUp ?_
      simp only [Outcome.verdict?, hf, if_false, Bool.false_eq_true]

/-! ## Series of attempts -/

/-- No attempt but the last can decide. -/
def Series (s : ClientSetup) (os : List Outcome) : Prop :=
  ∀ n < os.length, verdict? s.settings.maxRetries (os.take n) = none

/-- An attempt that decides nothing is one of those that may be retried. -/
theorem le_of_verdict?_eq_none {retries : Nat} {os : List Outcome} (h : verdict? retries os = none) :
    os.length ≤ retries := by
  have hretried {n : Nat} {f : IoFailure} (hf : retried? retries n f = none) : n ≤ retries := by
    unfold retried? at hf
    split at hf
    · assumption
    · cases hf
  induction os using List.reverseRecOn with
  | nil => exact Nat.zero_le _
  | append_singleton os o _ =>
    rw [verdict?_concat] at h
    rw [List.length_append, List.length_singleton]
    cases o with
    | connected socket => cases h
    | timedOut => exact hretried h
    | failed f =>
      rw [Outcome.verdict?] at h
      split at h
      · exact hretried h
      · cases h

theorem Series.undecided {os : List Outcome} {o : Outcome} (h : Series s (os ++ [o])) :
    verdict? s.settings.maxRetries os = none := by
  have hn := h os.length (by simp)
  rwa [List.take_left] at hn

theorem Series.init {os : List Outcome} {o : Outcome} (h : Series s (os ++ [o])) : Series s os := by
  intro n hn
  have hlt : n < (os ++ [o]).length := by
    rw [List.length_append]
    exact Nat.lt_add_right _ hn
  have htake := h n hlt
  rwa [List.take_append_of_le_length (Nat.le_of_lt hn)] at htake

/-- The pauses after so many failures. -/
def waits (s : ClientSetup) (n : Nat) : List Span := (List.range n).map fun i => wait s (i + 1)

/-- The dialer at the end of a series that has decided nothing yet, and the pauses in it. -/
theorem run_append (hs : Spans s) {os : List Outcome} (h : Series s os)
    (undecided : verdict? s.settings.maxRetries os = none) (rest : List Attempt) :
    (Dialer.new s.settings s.connection).run (os.map Outcome.attempt ++ rest) =
      (waits s os.length ++ ((dialerAfter s os.length).run rest).1,
        ((dialerAfter s os.length).run rest).2) := by
  induction os using List.reverseRecOn generalizing rest with
  | nil =>
    rw [← dialerAfter_zero]
    rfl
  | append_singleton os o ih =>
    have hn := le_of_verdict?_eq_none h.undecided
    have hjudged := judged hs hn o
    rw [verdict?_concat] at undecided
    rw [List.map_append, List.append_assoc, ih h.init h.undecided, List.length_append,
      List.length_singleton]
    simp only [List.map_cons, List.map_nil, List.singleton_append, Dialer.run]
    generalize (dialerAfter s os.length).judge o.attempt = v at hjudged
    cases hjudged with
    | again hagain =>
      simp only [waits, List.range_succ, List.map_append, List.map_cons, List.map_nil,
        List.append_assoc, List.singleton_append]
    | gaveUp hgave =>
      rw [undecided] at hgave
      cases hgave
    | connected hsocket =>
      rw [hsocket] at undecided
      cases undecided

/-- The pauses and the result of a series. -/
theorem run_series (hs : Spans s) {os : List Outcome} (h : Series s os) :
    (Dialer.new s.settings s.connection).run (os.map Outcome.attempt) =
      match verdict? s.settings.maxRetries os with
      | none => (waits s os.length, none)
      | some r => (waits s (os.length - 1), some (r.map fun _ => ())) := by
  cases os using List.reverseRecOn with
  | nil => rfl
  | append_singleton os o =>
    have hn := le_of_verdict?_eq_none h.undecided
    have hjudged := judged hs hn o
    rw [List.map_append, run_append hs h.init h.undecided, verdict?_concat, List.length_append,
      List.length_singleton]
    simp only [List.map_cons, List.map_nil, Dialer.run]
    generalize (dialerAfter s os.length).judge o.attempt = v at hjudged
    cases hjudged with
    | again hagain =>
      rw [hagain]
      simp only [waits, List.range_succ, List.map_append, List.map_cons, List.map_nil]
    | gaveUp hgave =>
      rw [hgave]
      simp only [List.append_nil, Nat.add_sub_cancel]
      rfl
    | connected hsocket =>
      rw [hsocket]
      simp only [List.append_nil, Nat.add_sub_cancel, Outcome.verdict?]
      rfl

/-! ## Attempts in a run -/

/-- An attempt of a caller that is over. -/
structure Tried where
  began : Span
  ended : Span
  outcome : Outcome
  deriving DecidableEq

/-- The caller that a step brings further on its way to a connection. -/
def Label.opener? : Label → Option Nat
  | .dialed caller _ => some caller
  | .openTimer caller => some caller
  | _ => none

/-- What a step brings to a caller that waits for its attempt. -/
def Label.outcome? : Label → Option Outcome
  | .dialed _ (.ok socket) => some (.connected socket)
  | .dialed _ (.error f) => some (.failed f)
  | .openTimer _ => some .timedOut
  | _ => none

/-- The attempt of a caller that a step ends. -/
def tried? (s : ClientSetup) (caller : Nat) (cl : Client) (x : Label) : Option Tried :=
  match cl.opens[caller]? with
  | some ⟨_, .dialing deadline _⟩ =>
    if x.opener? = some caller then
      x.outcome?.map (⟨deadline - s.settings.connectTimeout, cl.now, ·⟩)
    else none
  | _ => none

/-- The attempts of a caller that end in the course of a run. -/
def tries (s : ClientSetup) (caller : Nat) (cl : Client) : List Label → List Tried
  | [] => []
  | x :: ls =>
    match cl.step s x with
    | some next => (cl.tried? s caller x).toList ++ next.tries s caller ls
    | none => []

/-- What the attempts came to. -/
def outcomes (ts : List Tried) : List Outcome := ts.map Tried.outcome

variable {caller : Nat} {c : OpenCall} {l : Link}

theorem opens_afterAttempt (s : ClientSetup) (cl : Client) (caller : Nat) (loops : LoopSet)
    (d : Dialer) (a : Attempt) (socket : Socket) :
    ∃ point, (cl.afterAttempt s caller loops d a socket).opens =
      cl.opens.set caller ⟨loops, point⟩ := by
  unfold afterAttempt
  split
  · split
    · exact ⟨_, rfl⟩
    · exact ⟨_, rfl⟩
  · exact ⟨_, rfl⟩
  · exact ⟨_, rfl⟩

theorem opens_close (cl : Client) : cl.close.opens = cl.opens := by
  unfold close
  split
  · rfl
  · rename_i id _
    have hstep : ((Client.stepLink { cl with slot := none } id .close).getD
        { cl with slot := none }).opens = cl.opens := by
      cases h : Client.stepLink { cl with slot := none } id .close with
      | none => rfl
      | some next =>
        obtain ⟨l, l', totals, -, -, rfl⟩ := exists_of_stepLink h
        rfl
    dsimp only
    split <;> exact hstep

/-- A caller stays where it is in the steps of others. -/
theorem opens_of_other (hstep : cl.step s x = some cl') (hx : x.opener? ≠ some caller)
    (hc : cl.opens[caller]? = some c) : cl'.opens[caller]? = some c := by
  have same (hopens : cl'.opens = cl.opens) : cl'.opens[caller]? = some c := hopens ▸ hc
  have set {k : Nat} {c' : OpenCall} (hk : k ≠ caller) (hopens : cl'.opens = cl.opens.set k c') :
      cl'.opens[caller]? = some c := by
    rw [hopens, List.getElem?_set_ne hk, hc]
  have tried {k : Nat} {loops : LoopSet} {d : Dialer} {a : Attempt} {socket : Socket}
      (hk : k ≠ caller) (hafter : cl' = cl.afterAttempt s k loops d a socket) :
      cl'.opens[caller]? = some c := by
    obtain ⟨point, hopens⟩ := opens_afterAttempt s cl k loops d a socket
    exact set hk (hafter ▸ hopens)
  cases step_of hstep with
  | asks loops => exact (List.getElem?_append_left (List.getElem?_eq_some_iff.1 hc).1).trans hc
  | connects dialing => exact tried (fun h => hx (congrArg some h)) rfl
  | fails dialing => exact tried (fun h => hx (congrArg some h)) rfl
  | expires dialing due => exact tried (fun h => hx (congrArg some h)) rfl
  | resumes pausing due => exact set (fun h => hx (congrArg some h)) rfl
  | closes => exact same (opens_close cl)
  | ticks | draws | begins | finishes | returns | sends | sendsDirect | receives | refuses | starts
  | goes => exact same rfl

/-- How a caller goes on that waits for its attempt. -/
theorem step_of_dialing {loops : LoopSet} {deadline : Span} {d : Dialer}
    (hstep : cl.step s x = some cl') (hx : x.opener? = some caller)
    (hc : cl.opens[caller]? = some ⟨loops, .dialing deadline d⟩) :
    ∃ o socket, x.outcome? = some o ∧ (∀ k, o = .connected k → k = socket) ∧
      (o = .timedOut → deadline ≤ cl.now) ∧
      cl' = cl.afterAttempt s caller loops d o.attempt socket := by
  cases step_of hstep with
  | @connects _ _ _ _ socket dialing =>
    cases hx
    cases hc.symm.trans dialing
    refine ⟨.connected socket, socket, rfl, ?_, nofun, rfl⟩
    intro k hk
    cases hk
    rfl
  | @fails _ _ _ _ f dialing =>
    cases hx
    cases hc.symm.trans dialing
    exact ⟨.failed f, ⟨none, none⟩, rfl, nofun, nofun, rfl⟩
  | expires dialing due =>
    cases hx
    cases hc.symm.trans dialing
    exact ⟨.timedOut, ⟨none, none⟩, rfl, nofun, fun _ => due, rfl⟩
  | resumes pausing due =>
    cases hx
    cases hc.symm.trans pausing
  | refuses use => rcases use with rfl | ⟨m, rfl | rfl⟩ <;> cases hx
  | _ => cases hx

/-- How a caller goes on that pauses: it dials again, once the pause is over. -/
theorem step_of_pausing {loops : LoopSet} {resume : Span} {d : Dialer}
    (hstep : cl.step s x = some cl') (hx : x.opener? = some caller)
    (hc : cl.opens[caller]? = some ⟨loops, .pausing resume d⟩) :
    resume ≤ cl.now ∧ cl' = cl.setOpen caller ⟨loops, cl.attempt s d⟩ := by
  cases step_of hstep with
  | resumes pausing due =>
    cases hx
    cases hc.symm.trans pausing
    exact ⟨due, rfl⟩
  | connects dialing | fails dialing | expires dialing =>
    cases hx
    cases hc.symm.trans dialing
  | refuses use => rcases use with rfl | ⟨m, rfl | rfl⟩ <;> cases hx
  | _ => cases hx

/-- A caller that has its answer is done. -/
theorem opener?_of_answered {loops : LoopSet} {r : Except EngineError Unit}
    (hstep : cl.step s x = some cl') (hc : cl.opens[caller]? = some ⟨loops, .answered r⟩) :
    x.opener? ≠ some caller := by
  intro hx
  cases step_of hstep with
  | connects other | fails other | expires other | resumes other =>
    cases hx
    cases hc.symm.trans other
  | refuses use => rcases use with rfl | ⟨m, rfl | rfl⟩ <;> cases hx
  | _ => cases hx

/-! ## Where a caller stands -/

/-- What holds of each attempt, the number of its failure, and the attempt after it. -/
def Between (ts : List Tried) (p : Nat → Tried → Tried → Prop) : Prop :=
  ∀ i t u, ts[i]? = some t → ts[i + 1]? = some u → p (i + 1) t u

/-- How the attempts of a caller that are over follow each other. -/
structure Paced (s : ClientSetup) (ts : List Tried) : Prop where
  bounded : ts.length ≤ s.settings.maxRetries + 1
  /-- No attempt follows one that decides. -/
  early : ∀ n < ts.length, verdict? s.settings.maxRetries (outcomes (ts.take n)) = none
  /-- Each begins when the pause after the one before is over, or later. -/
  rested : Between ts fun i t u => t.ended + wait s i ≤ u.began
  /-- None is given up too early. -/
  patient : ∀ t ∈ ts, t.outcome = .timedOut → t.began + s.settings.connectTimeout ≤ t.ended

/-- Where a caller stands after its attempts; `first` is the number of the first connection that can
have been made since it began. -/
inductive Stands (s : ClientSetup) (first : Nat) (links : List Link) (ts : List Tried) :
    OpenPoint → Prop where
  /-- It waits for an attempt that began at some time. -/
  | dialing {began : Span} (undecided : verdict? s.settings.maxRetries (outcomes ts) = none)
      (rested : ∀ t, ts.getLast? = some t → t.ended + wait s ts.length ≤ began) :
      Stands s first links ts
        (.dialing (began + s.settings.connectTimeout) (dialerAfter s ts.length))
  /-- It pauses, and since when is known. -/
  | pausing {t : Tried} (undecided : verdict? s.settings.maxRetries (outcomes ts) = none)
      (last : ts.getLast? = some t) :
      Stands s first links ts (.pausing (t.ended + wait s ts.length) (dialerAfter s ts.length))
  | failed {e : EngineError}
      (decided : verdict? s.settings.maxRetries (outcomes ts) = some (.error e)) :
      Stands s first links ts (.answered (.error e))
  /-- A connection has been made on the socket. -/
  | opened {socket : Socket} {l : Link}
      (decided : verdict? s.settings.maxRetries (outcomes ts) = some (.ok socket))
      (mem : l ∈ links) (fresh : first ≤ l.id)
      (ends : l.setup.peer = socket.peer ∧ l.setup.localAddress = socket.localAddress) :
      Stands s first links ts (.answered (.ok ()))
  /-- Another caller has made a connection in the meantime. -/
  | overtaken {socket : Socket} {l : Link}
      (decided : verdict? s.settings.maxRetries (outcomes ts) = some (.ok socket))
      (mem : l ∈ links) (fresh : first ≤ l.id) :
      Stands s first links ts (.answered (.error .alreadyConnected))

structure Dials (s : ClientSetup) (first : Nat) (links : List Link) (ts : List Tried)
    (point : OpenPoint) : Prop extends Paced s ts where
  stands : Stands s first links ts point

variable {first : Nat} {links : List Link} {ts : List Tried} {t : Tried} {point : OpenPoint}

theorem outcomes_concat (ts : List Tried) (t : Tried) :
    outcomes (ts ++ [t]) = outcomes ts ++ [t.outcome] := List.map_append

theorem length_outcomes (ts : List Tried) : (outcomes ts).length = ts.length := List.length_map _

/-- The verdict with one attempt more is that of the attempt. -/
theorem verdict?_tried (ts : List Tried) (t : Tried) :
    verdict? s.settings.maxRetries (outcomes (ts ++ [t])) =
      t.outcome.verdict? s.settings.maxRetries (ts.length + 1) := by
  rw [outcomes_concat, verdict?_concat, length_outcomes]

theorem Between.concat {p : Nat → Tried → Tried → Prop} (h : Between ts p)
    (last : ∀ u, ts.getLast? = some u → p ts.length u t) : Between (ts ++ [t]) p := by
  intro i a b ha hb
  obtain hlt | hge := Nat.lt_or_ge (i + 1) ts.length
  · rw [List.getElem?_append_left (Nat.lt_of_succ_lt hlt)] at ha
    rw [List.getElem?_append_left hlt] at hb
    exact h i a b ha hb
  · have hlast : i + 1 = ts.length := by
      have hb' := (List.getElem?_eq_some_iff.1 hb).1
      rw [List.length_append, List.length_singleton] at hb'
      omega
    rw [List.getElem?_append_left (by omega)] at ha
    rw [List.getElem?_append_right hge, hlast, Nat.sub_self] at hb
    cases hb
    rw [hlast]
    refine last a ?_
    rw [List.getLast?_eq_getElem?, ← hlast]
    exact ha

theorem between_nil (p : Nat → Tried → Tried → Prop) : Between [] p := by
  intro i t u ht
  simp at ht

theorem paced_nil (s : ClientSetup) : Paced s [] := by
  refine ⟨Nat.zero_le _, fun n hn => ?_, between_nil _, fun t ht => ?_⟩
  · simp at hn
  · simp at ht

theorem Paced.concat (h : Paced s ts)
    (undecided : verdict? s.settings.maxRetries (outcomes ts) = none)
    (rested : ∀ u, ts.getLast? = some u → u.ended + wait s ts.length ≤ t.began)
    (patient : t.outcome = .timedOut → t.began + s.settings.connectTimeout ≤ t.ended) :
    Paced s (ts ++ [t]) := by
  have hlength := le_of_verdict?_eq_none undecided
  rw [length_outcomes] at hlength
  refine ⟨?_, fun n hn => ?_, h.rested.concat rested, fun u hu => ?_⟩
  · rw [List.length_append, List.length_singleton]
    exact Nat.succ_le_succ hlength
  · rw [List.length_append, List.length_singleton, Nat.lt_succ_iff] at hn
    rw [List.take_append_of_le_length hn]
    obtain hlt | rfl := Nat.lt_or_eq_of_le hn
    · exact h.early n hlt
    · rw [List.take_length]
      exact undecided
  · rcases List.mem_append.1 hu with hu | hu
    · exact h.patient u hu
    · rw [List.mem_singleton.1 hu]
      exact patient

/-- The connections that were there when a caller began are closed or about to be: what is open has
been made since. -/
structure Since (first : Nat) (cl : Client) : Prop where
  numbers : first ≤ cl.nextId
  live : ∀ l ∈ cl.links, l.isClosed = false → first ≤ l.id

theorem since_of_idle (h : Slotted cl) (idle : cl.isConnected = false) : Since cl.nextId cl := by
  refine ⟨Nat.le_refl _, fun l hl hopen => ?_⟩
  rw [h.isClosed_of_idle idle hl] at hopen
  cases hopen

theorem Since.map {f : Link → Link} (h : Since first cl) (grown : Grown cl)
    (hlinks : cl'.links = cl.links.map f) (goes : ∀ l ∈ cl.links, ∃ y, l.Goes y (f l))
    (numbers : cl.nextId ≤ cl'.nextId) : Since first cl' := by
  refine ⟨Nat.le_trans h.numbers numbers, fun k hk hopen => ?_⟩
  rw [hlinks] at hk
  obtain ⟨l, hl, rfl⟩ := List.mem_map.1 hk
  obtain ⟨y, hgoes⟩ := goes l hl
  obtain ⟨cs, hcs⟩ := grown l hl
  rw [hgoes.id_eq]
  refine h.live l hl (Bool.eq_false_iff.2 fun hclosed => ?_)
  rw [hgoes.isClosed hcs hclosed] at hopen
  cases hopen

theorem Since.turn (h : Since first cl) (slotted : Slotted cl) (hturn : Turn s cl cl') :
    Since first cl' := by
  cases hturn with
  | serves hlinks goes numbers _ => exact h.map slotted.grown hlinks goes numbers
  | closes hlinks goes numbers _ _ => exact h.map slotted.grown hlinks goes numbers
  | adopts idle hlinks numbers _ =>
    refine ⟨numbers ▸ Nat.le_succ_of_le h.numbers, fun k hk hopen => ?_⟩
    rw [hlinks] at hk
    rcases List.mem_append.1 hk with hk | hk
    · exact h.live k hk hopen
    · rw [List.mem_singleton.1 hk]
      exact h.numbers

/-- A connection stays among those of the client, with the setup that it has. -/
theorem exists_setup_of_turn (hturn : Turn s cl cl') (hl : l ∈ cl.links) :
    ∃ l' ∈ cl'.links, l'.setup = l.setup := by
  cases hturn with
  | serves hlinks goes _ _ =>
    obtain ⟨y, hgoes⟩ := goes l hl
    exact ⟨_, hlinks ▸ List.mem_map_of_mem hl, hgoes.setup_eq⟩
  | closes hlinks goes _ _ _ =>
    obtain ⟨y, hgoes⟩ := goes l hl
    exact ⟨_, hlinks ▸ List.mem_map_of_mem hl, hgoes.setup_eq⟩
  | adopts _ hlinks _ _ => exact ⟨l, hlinks ▸ List.mem_append_left _ hl, rfl⟩

theorem Stands.turn (h : Stands s first cl.links ts point) (hturn : Turn s cl cl') :
    Stands s first cl'.links ts point := by
  cases h with
  | dialing undecided rested => exact .dialing undecided rested
  | pausing undecided last => exact .pausing undecided last
  | failed decided => exact .failed decided
  | opened decided mem fresh ends =>
    obtain ⟨l', hmem, hsetup⟩ := exists_setup_of_turn hturn mem
    exact .opened decided hmem (by rw [Link.id, hsetup]; exact fresh) (by rw [hsetup]; exact ends)
  | overtaken decided mem fresh =>
    obtain ⟨l', hmem, hsetup⟩ := exists_setup_of_turn hturn mem
    exact .overtaken decided hmem (by rw [Link.id, hsetup]; exact fresh)

/-! ## Steps and runs -/

/-- An attempt comes to something, and the caller goes on by its verdict. -/
theorem stands_afterAttempt (hs : Spans s) (since : Since first cl) {loops : LoopSet}
    {o : Outcome} {socket : Socket} (hsocket : ∀ k, o = .connected k → k = socket)
    (undecided : verdict? s.settings.maxRetries (outcomes ts) = none) (caller : Nat) (began : Span) :
    ∃ point,
      (cl.afterAttempt s caller loops (dialerAfter s ts.length) o.attempt socket).opens =
        cl.opens.set caller ⟨loops, point⟩ ∧
      Stands s first
        (cl.afterAttempt s caller loops (dialerAfter s ts.length) o.attempt socket).links
        (ts ++ [⟨began, cl.now, o⟩]) point := by
  have hn : ts.length ≤ s.settings.maxRetries :=
    length_outcomes ts ▸ le_of_verdict?_eq_none undecided
  have hv := verdict?_tried (s := s) ts ⟨began, cl.now, o⟩
  have hlast : (ts ++ [(⟨began, cl.now, o⟩ : Tried)]).getLast? = some ⟨began, cl.now, o⟩ :=
    List.getLast?_concat
  have hlength : (ts ++ [(⟨began, cl.now, o⟩ : Tried)]).length = ts.length + 1 := by simp
  have hjudged := judged hs hn o
  unfold afterAttempt
  generalize (dialerAfter s ts.length).judge o.attempt = v at hjudged
  cases hjudged with
  | again h =>
    refine ⟨_, rfl, ?_⟩
    have hpausing : Stands s first cl.links _ _ := .pausing (hv.trans h) hlast
    rw [hlength] at hpausing
    exact hpausing
  | gaveUp h => exact ⟨_, rfl, .failed (hv.trans h)⟩
  | connected h =>
    subst h
    obtain rfl := hsocket _ rfl
    dsimp only
    by_cases hconnected : cl.isConnected = true
    · rw [if_pos hconnected]
      refine ⟨_, rfl, ?_⟩
      obtain ⟨l, hlive⟩ := Option.isSome_iff_exists.1 hconnected
      obtain ⟨id, -, hfind, hopen⟩ := live?_eq_some.1 hlive
      have hmem := (Link.mem_of_find? hfind).1
      exact .overtaken (hv.trans rfl) hmem (since.live l hmem hopen)
    · rw [if_neg hconnected]
      refine ⟨_, rfl, ?_⟩
      exact .opened (hv.trans rfl) (List.mem_append_right _ (List.mem_singleton.2 rfl)) since.numbers
        ⟨rfl, rfl⟩

/-- What one step does to a caller. -/
theorem dials_step (hs : Spans s) (slotted : Slotted cl) (since : Since first cl) {loops : LoopSet}
    (hc : cl.opens[caller]? = some ⟨loops, point⟩) (h : Dials s first cl.links ts point)
    (hstep : cl.step s x = some cl') :
    ∃ point, cl'.opens[caller]? = some ⟨loops, point⟩ ∧
      Dials s first cl'.links (ts ++ (cl.tried? s caller x).toList) point := by
  have hturn := turn_step slotted hstep
  have hlt : caller < cl.opens.length := (List.getElem?_eq_some_iff.1 hc).1
  by_cases hx : x.opener? = some caller
  · obtain ⟨paced, stands⟩ := h
    cases stands with
    | @dialing began undecided rested =>
      obtain ⟨o, socket, ho, hsocket, htimer, rfl⟩ := step_of_dialing hstep hx hc
      obtain ⟨point, hopens, hstands⟩ :=
        stands_afterAttempt hs since hsocket undecided caller began
      have htried : cl.tried? s caller x = some ⟨began, cl.now, o⟩ := by
        simp only [tried?, hc, hx, ho, if_true, Option.map_some, Nat.add_sub_cancel]
      rw [htried]
      refine ⟨point, ?_, paced.concat undecided rested htimer, hstands⟩
      rw [hopens, List.getElem?_set_self hlt]
    | @pausing t undecided last =>
      obtain ⟨hresume, rfl⟩ := step_of_pausing hstep hx hc
      have htried : cl.tried? s caller x = none := by simp only [tried?, hc]
      rw [htried, Option.toList_none, List.append_nil]
      refine ⟨_, List.getElem?_set_self hlt, paced, .dialing undecided fun u hu => ?_⟩
      rw [last] at hu
      cases hu
      exact hresume
    | failed decided => exact absurd hx (opener?_of_answered hstep hc)
    | opened decided mem fresh ends => exact absurd hx (opener?_of_answered hstep hc)
    | overtaken decided mem fresh => exact absurd hx (opener?_of_answered hstep hc)
  · have htried : cl.tried? s caller x = none := by
      unfold tried?
      split
      · rw [if_neg hx]
      · rfl
    rw [htried, Option.toList_none, List.append_nil]
    exact ⟨point, opens_of_other hstep hx hc, h.toPaced, h.stands.turn hturn⟩

theorem dials_of_run (hs : Spans s) {ls : List Label} (run : Steps s cl ls cl') {loops : LoopSet} :
    ∀ {ts : List Tried} {point : OpenPoint}, Slotted cl → Since first cl →
      cl.opens[caller]? = some ⟨loops, point⟩ → Dials s first cl.links ts point →
      ∃ point, cl'.opens[caller]? = some ⟨loops, point⟩ ∧
        Dials s first cl'.links (ts ++ cl.tries s caller ls) point := by
  induction run with
  | nil cl =>
    intro ts point _ _ hc h
    rw [tries, List.append_nil]
    exact ⟨point, hc, h⟩
  | cons hstep _ ih =>
    intro ts point slotted since hc h
    have hturn := turn_step slotted hstep
    obtain ⟨point', hc', h'⟩ := dials_step hs slotted since hc h hstep
    obtain ⟨point'', hc'', h''⟩ := ih (slotted.turn hturn) (since.turn slotted hturn) hc' h'
    refine ⟨point'', hc'', ?_⟩
    rw [tries, hstep, ← List.append_assoc]
    exact h''

/-- A caller that comes and finds no connection begins its first attempt. -/
theorem opens_beginOpen (idle : cl.isConnected = false) (loops : LoopSet) :
    (cl.beginOpen s loops).opens[cl.opens.length]? =
      some ⟨loops, .dialing (cl.now + s.settings.connectTimeout) (dialerAfter s 0)⟩ := by
  simp only [beginOpen, idle, Bool.false_eq_true, if_false, List.getElem?_concat_length, attempt,
    dialerAfter_zero]

/-! ## Every series comes about -/

theorem Steps.append {a b c : Client} {ls ls' : List Label} (h : Steps s a ls b)
    (h' : Steps s b ls' c) : Steps s a (ls ++ ls') c := by
  induction h with
  | nil cl => exact h'
  | cons first _ ih => exact .cons first (ih h')

theorem tries_append {a b : Client} {ls : List Label} (h : Steps s a ls b) (ls' : List Label) :
    a.tries s caller (ls ++ ls') = a.tries s caller ls ++ b.tries s caller ls' := by
  induction h with
  | nil cl => rfl
  | cons first _ ih =>
    simp only [List.cons_append, tries, first, ih, List.append_assoc]

/-- The pauses are no longer than they have to be. -/
def Prompt (s : ClientSetup) (ts : List Tried) : Prop :=
  Between ts fun i t u => u.began = t.ended + wait s i

/-- The time goes on. -/
theorem step_tick (s : ClientSetup) (cl : Client) (d : Span) :
    ∃ next, cl.step s (.tick d 0) = some next ∧ next.opens = cl.opens ∧ next.now = cl.now + d :=
  ⟨_, rfl, rfl, rfl⟩

theorem tried?_tick (s : ClientSetup) (caller : Nat) (cl : Client) (d : Span) :
    cl.tried? s caller (.tick d 0) = none := by
  unfold tried?
  split <;> rfl

theorem afterAttempt_again (cl : Client) (loops : LoopSet) {o : Outcome} (hs : Spans s)
    (hn : n ≤ s.settings.maxRetries) (h : o.verdict? s.settings.maxRetries (n + 1) = none)
    (caller : Nat) (socket : Socket) :
    (cl.afterAttempt s caller loops (dialerAfter s n) o.attempt socket).opens =
        cl.opens.set caller ⟨loops, .pausing (cl.now + wait s (n + 1)) (dialerAfter s (n + 1))⟩ ∧
      (cl.afterAttempt s caller loops (dialerAfter s n) o.attempt socket).now = cl.now := by
  have hjudged := judged hs hn o
  unfold afterAttempt
  generalize (dialerAfter s n).judge o.attempt = v at hjudged
  cases hjudged with
  | again _ => exact ⟨rfl, rfl⟩
  | gaveUp hgave =>
    rw [h] at hgave
    cases hgave
  | connected hsocket =>
    rw [hsocket] at h
    cases h

/-- What can come to a caller comes about. -/
theorem exists_step_of_dialing {loops : LoopSet} {began : Span} {d : Dialer}
    (hc : cl.opens[caller]? = some ⟨loops, .dialing (began + s.settings.connectTimeout) d⟩)
    (hnow : began = cl.now) (o : Outcome) :
    ∃ ls mid x socket, Steps s cl ls mid ∧ cl.tries s caller ls = [] ∧ mid.opens = cl.opens ∧
      mid.step s x = some (mid.afterAttempt s caller loops d o.attempt socket) ∧
      mid.tried? s caller x = some ⟨began, mid.now, o⟩ := by
  cases o with
  | connected socket =>
    refine ⟨[], cl, .dialed caller (.ok socket), socket, .nil _, rfl, rfl, ?_, ?_⟩
    · simp only [step, dialed, hc]
      rfl
    · simp [tried?, hc, Label.opener?, Label.outcome?]
  | failed f =>
    refine ⟨[], cl, .dialed caller (.error f), ⟨none, none⟩, .nil _, rfl, rfl, ?_, ?_⟩
    · simp only [step, dialed, hc]
      rfl
    · simp [tried?, hc, Label.opener?, Label.outcome?]
  | timedOut =>
    obtain ⟨mid, htick, hopens, htime⟩ := step_tick s cl s.settings.connectTimeout
    have hc' := hopens ▸ hc
    have htries : cl.tries s caller [.tick s.settings.connectTimeout 0] = [] := by
      simp only [tries, htick, tried?_tick, Option.toList_none, List.append_nil]
    refine ⟨_, mid, .openTimer caller, ⟨none, none⟩, .cons htick (.nil _), htries, hopens, ?_, ?_⟩
    · simp only [step, openTimer, hc']
      rw [if_pos (by rw [htime, hnow])]
      rfl
    · simp [tried?, hc', Label.opener?, Label.outcome?]

/-- A caller stands ready for its next attempt, which begins now. -/
structure Ready (s : ClientSetup) (caller : Nat) (loops : LoopSet) (ts : List Tried) (cl : Client) :
    Prop where
  dialing : cl.opens[caller]? =
    some ⟨loops, .dialing (cl.now + s.settings.connectTimeout) (dialerAfter s ts.length)⟩
  rested : ∀ t, ts.getLast? = some t → cl.now = t.ended + wait s ts.length

/-- The pause of a caller passes, and it dials again. -/
theorem exists_ready {loops : LoopSet} {d : Dialer} {pause : Span}
    (hc : cl.opens[caller]? = some ⟨loops, .pausing (cl.now + pause) d⟩) :
    ∃ ls next, Steps s cl ls next ∧ cl.tries s caller ls = [] ∧ next.now = cl.now + pause ∧
      next.opens[caller]? =
        some ⟨loops, .dialing (next.now + s.settings.connectTimeout) d⟩ := by
  obtain ⟨mid, htick, hopens, htime⟩ := step_tick s cl pause
  have hc' := hopens ▸ hc
  have hlt : caller < mid.opens.length := (List.getElem?_eq_some_iff.1 hc').1
  have hgo : mid.step s (.openTimer caller) =
      some (mid.setOpen caller ⟨loops, mid.attempt s d⟩) := by
    simp only [step, openTimer, hc']
    rw [if_pos (by rw [htime])]
  refine ⟨[.tick pause 0, .openTimer caller], _, .cons htick (.cons hgo (.nil _)), ?_, htime,
    List.getElem?_set_self hlt⟩
  simp only [tries, htick, hgo, tried?_tick, Option.toList_none, List.nil_append, List.append_nil]
  simp [tried?, hc']

/-- One attempt more, with any outcome, and the pause behind it, if there is one. -/
theorem exists_next (hs : Spans s) {loops : LoopSet} (h : Ready s caller loops ts cl)
    (hn : ts.length ≤ s.settings.maxRetries) (o : Outcome) :
    ∃ ls next t, Steps s cl ls next ∧ cl.tries s caller ls = [t] ∧ t.began = cl.now ∧
      t.outcome = o ∧
      (o.verdict? s.settings.maxRetries (ts.length + 1) = none →
        Ready s caller loops (ts ++ [t]) next) := by
  obtain ⟨ls, mid, x, socket, hrun, hnone, hopens, hstep, htried⟩ :=
    exists_step_of_dialing h.dialing rfl o
  have hall := hrun.append (.cons hstep (.nil _))
  have htries : cl.tries s caller (ls ++ [x]) = [⟨cl.now, mid.now, o⟩] := by
    rw [tries_append hrun, hnone]
    simp only [tries, hstep, htried, Option.toList_some, List.append_nil, List.nil_append]
  by_cases hagain : o.verdict? s.settings.maxRetries (ts.length + 1) = none
  · obtain ⟨hset, hnow⟩ := afterAttempt_again mid loops hs hn hagain caller socket
    have hlt : caller < mid.opens.length := by
      rw [hopens]
      exact (List.getElem?_eq_some_iff.1 h.dialing).1
    have hpausing := List.getElem?_set_self (a := (⟨loops, .pausing (mid.now +
      wait s (ts.length + 1)) (dialerAfter s (ts.length + 1))⟩ : OpenCall)) hlt
    rw [← hset, ← hnow] at hpausing
    obtain ⟨ls', next, hrun', hnone', htime, hdials⟩ := exists_ready (s := s) hpausing
    refine ⟨_, next, ⟨cl.now, mid.now, o⟩, hall.append hrun', ?_, rfl, rfl, fun _ => ⟨?_, ?_⟩⟩
    · rw [tries_append hall, htries, hnone', List.append_nil]
    · rw [List.length_append, List.length_singleton]
      exact hdials
    · intro t ht
      rw [List.getLast?_concat] at ht
      cases ht
      rw [htime, hnow, List.length_append, List.length_singleton]
  · exact ⟨_, _, _, hall, htries, rfl, rfl, fun hnone => absurd hnone hagain⟩

theorem exists_run (hs : Spans s) {loops : LoopSet} (h : Ready s caller loops [] cl)
    {os : List Outcome} (series : Series s os) :
    ∃ ls next, Steps s cl ls next ∧ outcomes (cl.tries s caller ls) = os ∧
      Prompt s (cl.tries s caller ls) ∧
      (verdict? s.settings.maxRetries os = none →
        Ready s caller loops (cl.tries s caller ls) next) := by
  induction os using List.reverseRecOn with
  | nil => exact ⟨[], cl, .nil _, rfl, between_nil _, fun _ => h⟩
  | append_singleton os o ih =>
    obtain ⟨ls, mid, hrun, hos, hprompt, hready⟩ := ih series.init
    have hmid := hready series.undecided
    have hlength : (cl.tries s caller ls).length = os.length := by rw [← length_outcomes, hos]
    have hn : (cl.tries s caller ls).length ≤ s.settings.maxRetries :=
      hlength ▸ le_of_verdict?_eq_none series.undecided
    obtain ⟨ls', next, t, hrun', htries, hbegan, rfl, hnext⟩ := exists_next hs hmid hn o
    refine ⟨ls ++ ls', next, hrun.append hrun', ?_⟩
    rw [tries_append hrun, htries]
    refine ⟨by rw [outcomes_concat, hos], hprompt.concat fun u hu => ?_, fun hverdict => ?_⟩
    · rw [hbegan]
      exact hmid.rested u hu
    · rw [verdict?_concat, ← hlength] at hverdict
      exact hnext hverdict

/-- How often, when and with what result a caller dials that comes when there is no connection,
whatever else the client does at the same time. -/
theorem dials_of_steps {before : List Label} (hs : Spans s) (reach : Steps s new before cl)
    (idle : cl.isConnected = false) (loops : LoopSet) :
    (∀ ls cl', Steps s cl (.connect loops :: ls) cl' →
      ∃ point, cl'.opens[cl.opens.length]? = some ⟨loops, point⟩ ∧
        Dials s cl.nextId cl'.links (cl.tries s cl.opens.length (.connect loops :: ls)) point) ∧
    (∀ os, Series s os →
      (∃ ls cl', Steps s cl (.connect loops :: ls) cl' ∧
        outcomes (cl.tries s cl.opens.length (.connect loops :: ls)) = os ∧
        Prompt s (cl.tries s cl.opens.length (.connect loops :: ls))) ∧
      (Dialer.new s.settings s.connection).run (os.map Outcome.attempt) =
        match verdict? s.settings.maxRetries os with
        | none => (waits s os.length, none)
        | some r => (waits s (os.length - 1), some (r.map fun _ => ()))) := by
  have hslotted : Slotted cl := slotted_of_steps reach slotted_new
  have hconnect : cl.step s (.connect loops) = some (cl.beginOpen s loops) := rfl
  have hopens := opens_beginOpen (s := s) idle loops
  have htries (ls : List Label) : cl.tries s cl.opens.length (.connect loops :: ls) =
      (cl.beginOpen s loops).tries s cl.opens.length ls := by
    have hnone : cl.opens[cl.opens.length]? = none := List.getElem?_eq_none (Nat.le_refl _)
    simp only [tries, hconnect, tried?, hnone, Option.toList_none, List.nil_append]
  constructor
  · intro ls cl' run
    cases run with
    | cons first rest =>
      have hturn := turn_step hslotted first
      cases first
      have hstart : Dials s cl.nextId (cl.beginOpen s loops).links []
          (.dialing (cl.now + s.settings.connectTimeout) (dialerAfter s 0)) :=
        ⟨paced_nil s, .dialing rfl nofun⟩
      rw [htries]
      exact dials_of_run hs rest (hslotted.turn hturn)
        ((since_of_idle hslotted idle).turn hslotted hturn) hopens hstart
  · intro os series
    have hready : Ready s cl.opens.length loops [] (cl.beginOpen s loops) := ⟨hopens, nofun⟩
    obtain ⟨ls, cl', hrun, hos, hprompt, -⟩ := exists_run hs hready series
    refine ⟨⟨ls, cl', .cons hconnect hrun, ?_⟩, run_series hs series⟩
    rw [htries]
    exact ⟨hos, hprompt⟩

/-- A retry, after a pause that is longer than the longest one for connections: no answer in time,
then a refusal. A second caller has its socket meanwhile. -/
theorem dials_of_steps_of_refusal :
    let s : ClientSetup :=
      { settings := ⟨"", .ofMillis 50, 1, .ofMillis 20⟩
        connection := { ConnectionSettings.standard with
          rateLimit := .zero false
          retry := { RetryPolicy.standard with maxDelay := .ofMillis 5 } }
        framing := .field 64
        handler := .quiet
        chance := fun _ delay => delay }
    let ls : List Label :=
      [.connect .writeOnly, .tick (.ofMillis 50) 0, .openTimer 0, .dialed 1 (.ok ⟨some "peer", none⟩),
        .tick (.ofMillis 20) 0, .openTimer 0, .dialed 0 (.error (.ofKind .connectionRefused))]
    let exhausted (c : OpenCall) : Bool :=
      match c.point with
      | .answered (.error (.retriesExhausted 1 f)) => f.kind == .connectionRefused
      | _ => false
    Spans s ∧ Steps s new [] new ∧ new.isConnected = false ∧
      ∃ cl point, Steps s new (.connect .readWrite :: ls) cl ∧
        cl.opens[0]? = some ⟨.readWrite, point⟩ ∧
        Dials s 1 cl.links (new.tries s 0 (.connect .readWrite :: ls)) point ∧
        new.tries s 0 (.connect .readWrite :: ls) =
          [⟨0, .ofMillis 50, .timedOut⟩,
            ⟨.ofMillis 70, .ofMillis 70, .failed (.ofKind .connectionRefused)⟩] ∧
        cl.opens.map exhausted = [true, false] ∧ cl.links.map (·.setup.peer) = [some "peer"] := by
  intro s ls exhausted
  have hspans : Spans s := ⟨by decide, by decide⟩
  have hseen : (follow s new (.connect .readWrite :: ls)).map (fun cl =>
      (cl.opens.map exhausted, cl.links.map (·.setup.peer))) =
      some ([true, false], [some "peer"]) := by
    decide +kernel
  have htries : new.tries s 0 (.connect .readWrite :: ls) =
      [⟨0, .ofMillis 50, .timedOut⟩,
        ⟨.ofMillis 70, .ofMillis 70, .failed (.ofKind .connectionRefused)⟩] := by
    decide +kernel
  obtain ⟨cl, hrun, hcl⟩ := Option.map_eq_some_iff.1 hseen
  simp only [Prod.mk.injEq] at hcl
  have hsteps := steps_of_follow hrun
  obtain ⟨point, hpoint, hdials⟩ :=
    (dials_of_steps hspans (.nil new) rfl .readWrite).1 ls cl hsteps
  exact ⟨hspans, .nil new, rfl, cl, point, hsteps, hpoint, hdials, htries, hcl.1, hcl.2⟩

end Client
end FrameEngine
