import FrameEngine.Proofs.Connection.Ages
import FrameEngine.Proofs.Connection.Outgoing
import Mathlib.Data.List.Induction

/-!
# FrameEngine.Proofs.Connection.Idleness

When a connection is said to be silent. A step declares silence if the handler is told of it in the
step, or a direct call is answered with it (`Declares`). `sinceLast` is the time since the last
event of a kind, over the labels of a run, or since the connection was made.

What counts as activity is a read that brings octets, and a frame that has gone out whole. Octets of
a frame that is not finished count for nothing, however many have gone out: `sinceLast_le` says that
this is the one way in which silence can be declared too early.
-/

namespace FrameEngine

/-- A time of whole milliseconds. -/
def Span.IsWhole (t : Span) : Prop := ∃ n, t = .ofMillis n

theorem Span.IsWhole.add {t u : Span} (ht : t.IsWhole) (hu : u.IsWhole) : (t + u).IsWhole := by
  obtain ⟨n, rfl⟩ := ht
  obtain ⟨k, rfl⟩ := hu
  exact ⟨n + k, (Nat.add_mul n k _).symm⟩

instance (t : Span) : Decidable t.IsWhole :=
  decidable_of_iff (.ofMillis t.millis = t)
    ⟨fun h => ⟨_, h.symm⟩, fun ⟨_, h⟩ => by rw [h, Span.millis_ofMillis]⟩

namespace Wake

/-- Octets have been read. -/
def reads : Wake → Bool
  | .read (.ok d) => !d.isEmpty
  | _ => false

/-- The stream has taken octets. -/
def writes : Wake → Bool
  | .write (.ok n) => n ≠ 0
  | _ => false

/-- All that was written has been passed on. -/
def flushes : Wake → Bool
  | .flush (.ok ()) => true
  | _ => false

/-- Octets have passed, in one direction or the other. -/
def transfers (w : Wake) : Bool := w.reads || w.writes

/-- Something has happened that the connection takes for activity. -/
def refreshes (w : Wake) : Bool := w.reads || w.flushes

end Wake

namespace Label

def brings (kind : Wake → Bool) : Label → Bool
  | .wake _ w => kind w
  | _ => false

/-- How long the last event of a kind is past, after a label. -/
def elapse (kind : Wake → Bool) (since : Span) (l : Label) : Span :=
  if l.brings kind then 0 else since + l.wallTime

theorem brings_transfers {l : Label} (hr : l.brings Wake.refreshes = false)
    (hw : l.brings Wake.writes = false) : l.brings Wake.transfers = false := by
  cases l with
  | wake task w =>
    simp only [brings, Wake.refreshes, Wake.transfers, Bool.or_eq_false_iff] at *
    exact ⟨hr.1, hw⟩
  | _ => rfl

end Label

namespace Connection

/-- The time since the last event of a kind, or since the connection was made if there was none. -/
def sinceLast (kind : Wake → Bool) (ls : List Label) : Span := ls.foldl (Label.elapse kind) 0

/-- Octets of some frame have gone out, and since then neither has a frame been finished nor
anything been read. -/
def PartWritten (ls : List Label) : Prop :=
  ∃ before l after, ls = before ++ l :: after ∧ l.brings Wake.writes = true ∧
    ∀ k ∈ after, k.brings Wake.refreshes = false

theorem sinceLast_concat (kind : Wake → Bool) (ls : List Label) (l : Label) :
    sinceLast kind (ls ++ [l]) = l.elapse kind (sinceLast kind ls) := by
  simp only [sinceLast, List.foldl_append, List.foldl_cons, List.foldl_nil]

theorem sinceLast_le (ls : List Label) :
    sinceLast Wake.refreshes ls ≤ sinceLast Wake.transfers ls ∨ PartWritten ls := by
  induction ls using List.reverseRecOn with
  | nil => exact .inl (Nat.le_refl _)
  | append_singleton ls l ih =>
    rw [sinceLast_concat, sinceLast_concat]
    cases hr : l.brings Wake.refreshes with
    | true =>
      left
      rw [Label.elapse, if_pos hr]
      exact Nat.zero_le _
    | false =>
      cases hw : l.brings Wake.writes with
      | true => exact .inr ⟨ls, l, [], rfl, hw, nofun⟩
      | false =>
        have ht := Label.brings_transfers hr hw
        rw [Label.elapse, Label.elapse, hr, ht]
        rcases ih with hle | ⟨before, k, after, rfl, hk, hafter⟩
        · exact .inl (Nat.add_le_add_right hle _)
        · refine .inr ⟨before, k, after ++ [l], by simp, hk, fun j hj => ?_⟩
          rcases List.mem_append.1 hj with hj | hj
          · exact hafter j hj
          · rw [List.mem_singleton.1 hj]
            exact hr

variable {s : Setup} {c c' a b : Connection} {w : Wake} {l : Label} {ls : List Label}

/-! ## What counts as activity -/

theorem refreshed_touch (c : Connection) : c.wall.millis ≤ c.touch.lastActive :=
  Nat.le_max_right _ _

theorem refreshed_stepRead {job : ReadJob} {p : ReadProgress}
    (h : c.stepRead s job w = some (c', p)) (hw : w.refreshes = true) :
    c.wall.millis ≤ c'.lastActive := by
  cases readStep_of h with
  | gets point fits fed => exact refreshed_touch c
  | stops | expires | waits | ends | breaks | retries | exhausts | resumes => cases hw

theorem refreshed_stepWrite {o : Owner} {job : WriteJob} {p : WriteProgress}
    (h : c.stepWrite s o job w = some (c', p)) (hw : w.refreshes = true) :
    c.wall.millis ≤ c'.lastActive := by
  cases writeStep_of h with
  | completes point => exact refreshed_touch c
  | retries fails | exhausts fails => cases fails <;> cases hw
  | enters | stops | breaks | stalls | writes | resumes | refuses | expires => cases hw

theorem refreshed_stepReader (h : c.stepReader s w = some c') (hw : w.refreshes = true) :
    c.wall.millis ≤ c'.lastActive := by
  cases readerStep_of h with
  | goes reading read =>
    have hread := refreshed_stepRead read hw
    exact hread
  | @fails _ _ _ c₁ e reading read =>
    have hexit := calm_reportExit c₁ (idle_of_stepRead read)
    exact Nat.le_trans (refreshed_stepRead read hw) (hexit.ages.trans (ages_exitReader _)).later
  | hears reading read =>
    exact Nat.le_trans (refreshed_stepRead read hw) (ages_heard (s := s) _ _ _).later
  | begins | queues | enters | stops | resumes => cases hw

theorem refreshed_stepWriter (h : c.stepWriter s w = some c') (hw : w.refreshes = true) :
    c.wall.millis ≤ c'.lastActive := by
  cases writerStep_of h with
  | @goes _ _ c₁ _ writing write =>
    have hafter := ages_afterWrite (s := s) c₁ fun e he => stream_of_stepWrite write he
    exact Nat.le_trans (refreshed_stepWrite write hw) hafter.later
  | begins | lacks | stops | resumes | takes | ends | releases => cases hw

theorem refreshed_stepDirect {ticket : Nat} (h : c.stepDirect s ticket w = some c')
    (hw : w.refreshes = true) : c.wall.millis ≤ c'.lastActive := by
  cases directStep_of h with
  | @sends _ _ c₁ _ sending write =>
    have hafter := ages_afterSend (s := s) c₁ ticket fun e he => stream_of_stepWrite write he
    exact Nat.le_trans (refreshed_stepWrite write hw) hafter.later
  | goes reading read =>
    have hread := refreshed_stepRead read hw
    exact hread
  | fails reading read =>
    exact Nat.le_trans (refreshed_stepRead read hw)
      (ages_failReceive _ ticket (idle_of_stepRead read)).later
  | @hears _ _ c₁ d b reading read =>
    have hround := ages_receiveRound (s := s) { c₁ with pending := c₁.pending.append d } ticket b
    exact Nat.le_trans (refreshed_stepRead read hw) hround.later
  | enters | stops | resumes => cases hw

theorem refreshed_step (h : c.step s l = some c') (hl : l.brings Wake.refreshes = true) :
    c.wall.millis ≤ c'.lastActive := by
  cases l with
  | wake task w =>
    cases task with
    | reader => exact refreshed_stepReader h hl
    | writer => exact refreshed_stepWriter h hl
    | idler => cases idlerStep_of h <;> cases hl
    | runner =>
      obtain ⟨rfl, -⟩ := runnerStep_of h
      cases hl
    | direct ticket => exact refreshed_stepDirect h hl
  | _ => cases hl

/-! ## How long nothing has happened -/

theorem idleFor_step (h : c.step s l = some c') (whole : c.wall.IsWhole)
    (hl : l.wallTime.IsWhole) {d : Span} (hd : c.idleFor ≤ d) :
    c'.wall.IsWhole ∧ c'.idleFor ≤ l.elapse Wake.refreshes d := by
  have hages := ages_step h
  have hwall : c'.wall = c.wall + l.wallTime := hages.wall
  refine ⟨hwall ▸ whole.add hl, ?_⟩
  cases hr : l.brings Wake.refreshes with
  | true =>
    have hnone : l.wallTime = 0 := by
      cases l with
      | wake task w => rfl
      | _ => cases hr
    have hactive := refreshed_step h hr
    obtain ⟨n, hn⟩ := whole
    rw [hn, Span.millis_ofMillis] at hactive
    rw [Label.elapse, if_pos hr, idleFor, hwall, hnone, Nat.add_zero, hn]
    exact Nat.le_of_eq (Nat.sub_eq_zero_of_le (Nat.mul_le_mul_right _ hactive))
  | false =>
    have hanti : c'.idleFor ≤ c.wall + l.wallTime - .ofMillis c.lastActive :=
      idleFor_anti hages.wall hages.later
    have hadd : ∀ wall tick active : Nat, wall + tick - active ≤ wall - active + tick := by omega
    rw [Label.elapse, if_neg (Bool.eq_false_iff.1 hr)]
    exact Nat.le_trans hanti (Nat.le_trans (hadd _ _ _) (Nat.add_le_add_right hd _))

/-- The measured silence is no longer than the time since the last activity. -/
theorem idleFor_steps (run : Steps s c ls c') : c.wall.IsWhole →
    (∀ k ∈ ls, k.wallTime.IsWhole) → ∀ {d : Span}, c.idleFor ≤ d →
      c'.idleFor ≤ ls.foldl (Label.elapse Wake.refreshes) d := by
  induction run with
  | nil c => intro _ _ d hd; exact hd
  | cons first _ ih =>
    intro whole hls d hd
    obtain ⟨hwhole, hnext⟩ := idleFor_step first whole (hls _ List.mem_cons_self) hd
    exact ih hwhole (fun k hk => hls k (List.mem_cons_of_mem _ hk)) hnext

/-! ## Who is told of silence -/

/-- From the one to the other, the handler is told of silence or a direct call answered with it. -/
def Declares (a b : Connection) : Prop :=
  a.silences < b.silences ∨ ∃ ticket, ¬ a.AnswersSilence ticket ∧ b.AnswersSilence ticket

theorem Ages.idle (h : Ages s a b) (hd : Declares a b) : s.settings.idleTimeout ≤ a.idleFor := by
  rcases hd with hmore | ⟨ticket, hnew, hanswered⟩
  · cases h.silence with
    | same flag count => exact absurd count (Nat.ne_of_gt hmore)
    | once fresh flag count idle => exact idle
  · exact (h.answers ticket hanswered).resolve_left hnew

theorem idle_of_declares (h : a.step s l = some b) (hd : Declares a b) :
    s.settings.idleTimeout ≤ a.idleFor := by
  have hages := ages_step h
  cases l with
  | tick timers wall =>
    cases h
    rcases hd with hmore | ⟨ticket, hnew, hanswered⟩
    · exact absurd hmore (Nat.lt_irrefl _)
    · exact absurd hanswered hnew
  | _ => exact hages.idle hd

/-- The handler has been told once if the mark is set, and never if it is not. -/
theorem silences_steps (run : Steps s c ls c') :
    c.silences = c.silenced.toNat → c'.silences = c'.silenced.toNat := by
  induction run with
  | nil c => exact id
  | @cons a b _ _ _ first _ ih =>
    intro ha
    refine ih ?_
    have hages := ages_step first
    cases hages.silence with
    | same flag count => exact count.trans (ha.trans (congrArg Bool.toNat flag.symm))
    | once fresh flag count idle =>
      have hfresh : a.silenced = false := fresh
      rw [hfresh] at ha
      rw [flag]
      exact count.trans (congrArg Nat.succ ha)

theorem idle_after_silence (run : Steps s (new s) ls a) (whole : ∀ k ∈ ls, k.wallTime.IsWhole)
    (last : a.step s l = some b) :
    (Declares a b → s.settings.idleTimeout ≤ sinceLast Wake.refreshes ls ∧
      (s.settings.idleTimeout ≤ sinceLast Wake.transfers ls ∨ PartWritten ls)) ∧
    b.silences ≤ 1 := by
  refine ⟨fun hd => ?_, ?_⟩
  · have hmeasured : a.idleFor ≤ sinceLast Wake.refreshes ls :=
      idleFor_steps run ⟨0, (Nat.zero_mul _).symm⟩ whole (Nat.le_of_eq (Nat.zero_sub _))
    have hidle := Nat.le_trans (idle_of_declares last hd) hmeasured
    exact ⟨hidle, (sinceLast_le ls).imp_left (Nat.le_trans hidle)⟩
  · have hcount := silences_steps (.cons last (.nil b)) (silences_steps run rfl)
    rw [hcount]
    exact Bool.toNat_le _

/-- A frame is read after 20 ms. The idle loop, which looks every 20 ms, finds 51 ms later that more
than 50 have gone by since. -/
theorem idle_after_silence_of_read :
    let s : Setup :=
      { id := 1, peer := none, localAddress := none, framing := .field 64,
        settings :=
          { ConnectionSettings.standard with
            rateLimit := .zero false
            idleTimeout := .ofMillis 50
            idleCheckInterval := .ofMillis 20 },
        handler := .quiet, chance := fun _ delay => delay }
    let ls : List Label :=
      [.start .full, .wake .reader .go, .wake .writer .go, .wake .idler .go,
        .tick (.ofMillis 20) (.ofMillis 20), .wake .idler .timer,
        .wake .reader (.read (.ok [0, 0, 0, 16, 0, 0, 0, 1, 0, 0, 0, 1, 0, 0, 0, 0])),
        .tick (.ofMillis 51) (.ofMillis 51)]
    ∃ a b, Steps s (new s) ls a ∧ (∀ l ∈ ls, l.wallTime.IsWhole) ∧
      a.step s (.wake .idler .timer) = some b ∧ Declares a b ∧
      sinceLast Wake.refreshes ls = .ofMillis 51 ∧
      s.settings.idleTimeout ≤ sinceLast Wake.refreshes ls ∧ b.silences ≤ 1 := by
  intro s ls
  have hseen : ((follow s (new s) ls).bind fun a =>
      (a.step s (.wake .idler .timer)).map fun b => (a.silences, b.silences)) = some (0, 1) := by
    decide +kernel
  obtain ⟨a, ha, hseen⟩ := Option.bind_eq_some_iff.1 hseen
  obtain ⟨b, hb, hcounts⟩ := Option.map_eq_some_iff.1 hseen
  obtain ⟨hnone, hone⟩ := Prod.mk.inj hcounts
  have hdeclares : Declares a b := .inl (by omega)
  have hwhole : ∀ l ∈ ls, l.wallTime.IsWhole := by decide +kernel
  have hsteps := steps_of_follow ha
  obtain ⟨hidle, honce⟩ := idle_after_silence hsteps hwhole hb
  exact ⟨a, b, hsteps, hwhole, hb, hdeclares, by decide +kernel, (hidle hdeclares).1, honce⟩

/-- A slow reader at the other end takes four octets of a frame after nine seconds. Six seconds
later the read loop says that nothing has happened for fifteen. -/
theorem silence_in_midst_of_frame :
    let s : Setup :=
      { id := 1, peer := none, localAddress := none, framing := .field 64,
        settings :=
          { ConnectionSettings.standard with
            rateLimit := .zero false
            idleTimeout := .ofMillis 15000
            writeTimeout := .ofMillis 10000 },
        handler := .quiet, chance := fun _ delay => delay }
    let ls : List Label :=
      [.start .readWrite, .wake .reader .go, .wake .writer .go, .send (.field ⟨1, 1, []⟩),
        .wake .writer .go, .tick (.ofMillis 9000) (.ofMillis 9000),
        .wake .writer (.write (.ok 4)), .tick (.ofMillis 6000) (.ofMillis 6000)]
    ∃ a b, Steps s (new s) ls a ∧ (∀ l ∈ ls, l.wallTime.IsWhole) ∧
      a.step s (.wake .reader .timer) = some b ∧ Declares a b ∧
      sinceLast Wake.transfers ls = .ofMillis 6000 ∧
      ¬ s.settings.idleTimeout ≤ sinceLast Wake.transfers ls := by
  intro s ls
  have hseen : ((follow s (new s) ls).bind fun a =>
      (a.step s (.wake .reader .timer)).map fun b => (a.silences, b.silences)) = some (0, 1) := by
    decide +kernel
  obtain ⟨a, ha, hseen⟩ := Option.bind_eq_some_iff.1 hseen
  obtain ⟨b, hb, hcounts⟩ := Option.map_eq_some_iff.1 hseen
  obtain ⟨hnone, hone⟩ := Prod.mk.inj hcounts
  have hdeclares : Declares a b := .inl (by omega)
  have hwhole : ∀ l ∈ ls, l.wallTime.IsWhole := by decide +kernel
  exact ⟨a, b, steps_of_follow ha, hwhole, hb, hdeclares, by decide +kernel, by decide +kernel⟩

end Connection
end FrameEngine
