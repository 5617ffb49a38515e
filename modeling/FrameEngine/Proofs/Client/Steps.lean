import FrameEngine.Client.Step

/-!
# FrameEngine.Proofs.Client.Steps

What can happen to a client. `Step` has one case for each way on: under which condition it is there,
what brings it about, and what becomes of the client. A step of the client is one of these cases
(`step_of`), and what is proved of all steps is proved by the cases.
-/

namespace FrameEngine
namespace Client

/-- Something happens to a client. -/
inductive Step (s : ClientSetup) (cl : Client) : Label → Client → Prop where
  | ticks (timers wall : Span) :
      Step s cl (.tick timers wall) { cl with
        now := cl.now + timers
        links := cl.links.map fun l => ((l.step none (.tick timers wall)).map Prod.fst).getD l }
  | draws : Step s cl .drawId { cl with nextId := cl.nextId + 1 }
  | asks (loops : LoopSet) : Step s cl (.connect loops) (cl.beginOpen s loops)
  | connects {caller : Nat} {loops : LoopSet} {deadline : Span} {d : Dialer} {socket : Socket}
      (dialing : cl.opens[caller]? = some ⟨loops, .dialing deadline d⟩) :
      Step s cl (.dialed caller (.ok socket)) (cl.afterAttempt s caller loops d .connected socket)
  | fails {caller : Nat} {loops : LoopSet} {deadline : Span} {d : Dialer} {f : IoFailure}
      (dialing : cl.opens[caller]? = some ⟨loops, .dialing deadline d⟩) :
      Step s cl (.dialed caller (.error f))
        (cl.afterAttempt s caller loops d (.failed f) ⟨none, none⟩)
  | expires {caller : Nat} {loops : LoopSet} {deadline : Span} {d : Dialer}
      (dialing : cl.opens[caller]? = some ⟨loops, .dialing deadline d⟩) (due : deadline ≤ cl.now) :
      Step s cl (.openTimer caller) (cl.afterAttempt s caller loops d .timedOut ⟨none, none⟩)
  /-- The pause after an attempt is over. -/
  | resumes {caller : Nat} {loops : LoopSet} {resume : Span} {d : Dialer}
      (pausing : cl.opens[caller]? = some ⟨loops, .pausing resume d⟩) (due : resume ≤ cl.now) :
      Step s cl (.openTimer caller) (cl.setOpen caller ⟨loops, cl.attempt s d⟩)
  | begins {id : Nat} {l l' : Link} {totals : Option Metrics}
      (found : Link.find? cl.links id = some l) (begun : l.begin? none = some (l', totals)) :
      Step s cl (.begin id) (cl.update l')
  | finishes {id : Nat} {l : Link} (found : Link.find? cl.links id = some l)
      (ready : l.canEnd = true) : Step s cl (.finish id) (cl.update { l with ended := true })
  | closes : Step s cl .close cl.close
  | returns {caller task id : Nat} {l : Link}
      (joining : cl.closes[caller]? = some (.joining task id))
      (found : Link.find? cl.links task = some l) (ended : l.ended = true) :
      Step s cl (.closeGo caller) { cl.closed id with closes := cl.closes.set caller .answered }
  | sends {m : Message} {l : Link} {c : Connection} (live : cl.live? = some l)
      (sent : l.connection.send l.setup m = .ok c) :
      Step s cl (.send m) (cl.update { l with connection := c })
  | sendsDirect {m : Message} {l : Link} {frame : Octets} (live : cl.live? = some l)
      (packed : s.framing.pack m = .ok frame) :
      Step s cl (.sendDirect m)
        (cl.update { l with connection := l.connection.beginSend l.setup frame })
  | receives {l : Link} (live : cl.live? = some l) :
      Step s cl .receiveDirect
        (cl.update { l with connection := l.connection.beginReceive l.setup })
  /-- There is no connection to use, or it does not take the message. -/
  | refuses {x : Label} (use : x = .receiveDirect ∨ ∃ m, x = .send m ∨ x = .sendDirect m) :
      Step s cl x cl
  | starts {id : Nat} {l l' : Link} {totals : Option Metrics}
      (found : Link.find? cl.links id = some l)
      (went : l.step none .startRequested = some (l', totals)) :
      Step s cl (.startRequested id) (cl.update l')
  | goes {id : Nat} {task : Task} {w : Wake} {l l' : Link} {totals : Option Metrics}
      (found : Link.find? cl.links id = some l)
      (went : l.step none (.wake task w) = some (l', totals)) :
      Step s cl (.wake id task w) (cl.update l')

variable {s : ClientSetup} {cl cl' : Client} {x : Label}

theorem exists_of_stepLink {id : Nat} {y : FrameEngine.Label} (h : cl.stepLink id y = some cl') :
    ∃ l l' totals, Link.find? cl.links id = some l ∧ l.step none y = some (l', totals) ∧
      cl' = cl.update l' := by
  unfold stepLink at h
  split at h
  · obtain ⟨⟨l', totals⟩, hstep, rfl⟩ := Option.map_eq_some_iff.1 h
    exact ⟨_, l', totals, ‹_›, hstep, rfl⟩
  · cases h

/-! ## Callers -/

theorem step_of_dialed {caller : Nat} {r : Except IoFailure Socket}
    (h : cl.dialed s caller r = some cl') : Step s cl (.dialed caller r) cl' := by
  unfold dialed at h
  split at h
  · rename_i hdialing
    split at h <;> cases h
    · exact .connects hdialing
    · exact .fails hdialing
  · cases h

theorem step_of_openTimer {caller : Nat} (h : cl.openTimer s caller = some cl') :
    Step s cl (.openTimer caller) cl' := by
  unfold openTimer at h
  split at h
  · rename_i hdialing
    split at h <;> cases h
    exact .expires hdialing ‹_›
  · rename_i hpausing
    split at h <;> cases h
    exact .resumes hpausing ‹_›
  · cases h

theorem step_of_closeGo {caller : Nat} (h : cl.closeGo caller = some cl') :
    Step s cl (.closeGo caller) cl' := by
  unfold closeGo at h
  split at h
  · rename_i hjoining
    split at h
    · rename_i hfound
      split at h <;> cases h
      exact .returns hjoining hfound ‹_›
    · cases h
  · cases h

/-! ## Tasks of connections -/

theorem step_of_begin {id : Nat} (h : cl.begin id = some cl') : Step s cl (.begin id) cl' := by
  unfold begin at h
  split at h
  · rename_i hfound
    obtain ⟨p, hbegun, rfl⟩ := Option.map_eq_some_iff.1 h
    exact .begins hfound hbegun
  · cases h

theorem step_of_finish {id : Nat} (h : cl.finish id = some cl') : Step s cl (.finish id) cl' := by
  unfold finish at h
  split at h
  · rename_i hfound
    split at h <;> cases h
    exact .finishes hfound ‹_›
  · cases h

/-! ## Uses of the connection -/

theorem step_of_send (s : ClientSetup) (cl : Client) (m : Message) :
    Step s cl (.send m) ((cl.send m).toOption.getD cl) := by
  have hrefused : Step s cl (.send m) cl := .refuses (.inr ⟨m, .inl rfl⟩)
  unfold send
  split
  · exact hrefused
  · rename_i l hlive
    cases hsent : l.connection.send l.setup m with
    | ok c => exact .sends hlive hsent
    | error e => exact hrefused

theorem step_of_sendDirect (s : ClientSetup) (cl : Client) (m : Message) :
    Step s cl (.sendDirect m) (((cl.sendDirect s m).toOption.map Prod.fst).getD cl) := by
  have hrefused : Step s cl (.sendDirect m) cl := .refuses (.inr ⟨m, .inr rfl⟩)
  unfold sendDirect
  split
  · exact hrefused
  · rename_i l hlive
    cases hpacked : s.framing.pack m with
    | ok frame => exact .sendsDirect hlive hpacked
    | error e => exact hrefused

theorem step_of_receiveDirect (s : ClientSetup) (cl : Client) :
    Step s cl .receiveDirect ((cl.receiveDirect.toOption.map Prod.fst).getD cl) := by
  unfold receiveDirect
  split
  · exact .refuses (.inl rfl)
  · exact .receives ‹_›

/-! ## Steps -/

theorem step_of (h : cl.step s x = some cl') : Step s cl x cl' := by
  cases x with
  | tick timers wall => cases h; exact .ticks timers wall
  | drawId => cases h; exact .draws
  | connect loops => cases h; exact .asks loops
  | dialed caller r => exact step_of_dialed h
  | openTimer caller => exact step_of_openTimer h
  | begin id => exact step_of_begin h
  | finish id => exact step_of_finish h
  | close => cases h; exact .closes
  | closeGo caller => exact step_of_closeGo h
  | send m => cases h; exact step_of_send s cl m
  | sendDirect m => cases h; exact step_of_sendDirect s cl m
  | receiveDirect => cases h; exact step_of_receiveDirect s cl
  | startRequested id =>
    obtain ⟨l, l', totals, hfound, hwent, rfl⟩ := exists_of_stepLink h
    exact .starts hfound hwent
  | wake id task w =>
    obtain ⟨l, l', totals, hfound, hwent, rfl⟩ := exists_of_stepLink h
    exact .goes hfound hwent

end Client
end FrameEngine
