import FrameEngine.Proofs.Server.Admission

/-!
# FrameEngine.Proofs.Server.Shutdown

How a server stops. A caller that stops it has each registered connection closed by a task of its
own and waits for all tasks. A connection that is let in while the server is told to stop is in time
for these tasks, or is closed by the one that lets it in (`Swept`). Once a caller has come back
nothing is left that could run (`Down`), and that stays so (`shutdown`).
-/

namespace FrameEngine
namespace Server

open Books Connection

variable {s : ServerSetup} {sv sv' : Server} {k : Nat} {b b' : Books}

/-- No one attends to those who come, all tasks have ended, and no one can start the server. -/
structure Down (b : Books) : Prop where
  stopped : b.stopped = true
  shut : b.door = .shut
  ended : ∀ l ∈ b.links, l.ended = true

/-- Who has ever been let in, and how often the handler was told of the start of each. -/
def Books.welcomes (b : Books) : List Nat × List (Nat × Nat) :=
  (b.admissions, b.links.map fun l => (l.id, l.greetings))

namespace Down

theorem moves {f : Link → Link} (h : Down b) (ho : Orderly b) (hf : ∀ l ∈ b.links, l.Moves (f l)) :
    (∀ l ∈ b.links.map f, l.ended = true) ∧
      (b.links.map f).map (fun l => (l.id, l.greetings)) =
        b.links.map fun l => (l.id, l.greetings) := by
  refine ⟨fun l hl => ?_, ?_⟩
  · obtain ⟨k, hk, rfl⟩ := List.mem_map.1 hl
    exact (hf k hk).ended_eq.trans (h.ended k hk)
  · rw [List.map_map]
    refine List.map_congr_left fun l hl => ?_
    have htended := ho.tended l hl
    have hgreetings := (hf l hl).greetings_eq htended (htended.closed (h.ended l hl))
    exact congrArg₂ Prod.mk (hf l hl).id_eq hgreetings

/-- A server that is down stays down, and no one is welcomed. -/
theorem act (h : Down b) (ho : Orderly b) (hact : Act b b') :
    Down b' ∧ b'.welcomes = b.welcomes := by
  have hattended : ∀ permit, b.door ≠ .attended permit := fun permit hdoor => by
    rw [h.shut] at hdoor
    cases hdoor
  cases hact with
  | serves hf | closes _ hf _ =>
    obtain ⟨hended, hsame⟩ := h.moves ho hf
    exact ⟨⟨h.stopped, h.shut, hended⟩, congrArg (Prod.mk b.admissions) hsame⟩
  | opens fresh => exact absurd (fresh.1.symm.trans h.stopped) Bool.false_ne_true
  | takes hdoor _ | yields hdoor | shuts hdoor | admits hdoor _ _ _ _ | refuses hdoor _
  | collapses hdoor => exact absurd hdoor (hattended _)
  | @ends l mem able =>
    have lives : l.ended = false := by
      simp only [Link.canEnd, Bool.and_eq_true, Bool.not_eq_true'] at able
      exact able.2
    exact absurd (lives.symm.trans (h.ended l mem)) Bool.false_ne_true
  | stops _ | drains _ => exact ⟨⟨rfl, h.shut, h.ended⟩, rfl⟩
  | draws | joins _ _ | returns _ _ _ _ => exact ⟨⟨h.stopped, h.shut, h.ended⟩, rfl⟩

theorem acts (h : Down b) (ho : Orderly b) (hacts : Acts b b') :
    Down b' ∧ b'.welcomes = b.welcomes := by
  induction hacts with
  | refl => exact ⟨h, rfl⟩
  | tail before last ih =>
    obtain ⟨hdown, hsame⟩ := ih
    obtain ⟨hlast, hkept⟩ := hdown.act (ho.acts before) last
    exact ⟨hlast, hkept.trans hsame⟩

end Down

/-- What the callers that stop the server can rely on. -/
structure Swept (b : Books) : Prop where
  told : b.stops ≠ [] → b.stopped = true ∧ b.cancelled = true
  /-- Each connection is closed, or a task is about to close it. -/
  swept : (∃ first, .draining first ∈ b.stops) →
    ∀ l ∈ b.links, l.isClosed = true ∨ l.id ∈ b.closing
  returned : .returned ∈ b.stops → Down b

namespace Swept

/-- Whoever is registered is about to be closed, and the others are closed. -/
theorem sweep (ho : Orderly b) (hb : Balanced k b) :
    ∀ l ∈ b.links, l.isClosed = true ∨ l.id ∈ b.closing ++ b.registered := by
  intro l hl
  cases hended : l.ended with
  | true => exact .inl ((ho.tended l hl).closed hended)
  | false =>
    refine .inr (List.mem_append_right _ ?_)
    rw [hb.registered]
    exact mem_alive.2 ⟨l, hl, rfl, hended⟩

theorem act (h : Swept b) (ho : Orderly b) (hb : Balanced k b) (hact : Act b b') : Swept b' := by
  have hdown : .returned ∈ b.stops → Down b' := fun hr => ((h.returned hr).act ho hact).1
  have hmoves : ∀ {f : Link → Link}, (∀ l ∈ b.links, l.Moves (f l)) →
      (∃ first, .draining first ∈ b.stops) → ∀ l ∈ b.links.map f,
        l.isClosed = true ∨ ∃ k ∈ b.links, l = f k ∧ k.id ∈ b.closing := by
    intro f hf hdrains l hl
    obtain ⟨k, hk, rfl⟩ := List.mem_map.1 hl
    exact (h.swept hdrains k hk).imp ((hf k hk).isClosed (ho.tended k hk))
      fun hid => ⟨k, hk, rfl, hid⟩
  cases hact with
  | serves hf =>
    refine ⟨h.told, fun hd l hl => ?_, hdown⟩
    refine (hmoves hf hd l hl).imp_right ?_
    rintro ⟨k, hk, rfl, hid⟩
    rw [(hf k hk).id_eq]
    exact hid
  | @closes id f due hf closed =>
    refine ⟨h.told, fun hd l hl => ?_, hdown⟩
    rcases hmoves hf hd l hl with hclosed | ⟨k, hk, rfl, hid⟩
    · exact .inl hclosed
    · by_cases hsame : k.id = id
      · exact .inl (closed k hk hsame)
      · refine .inr ?_
        rw [(hf k hk).id_eq]
        exact (List.mem_erase_of_ne hsame).2 hid
  | @admits l held next tended lives late =>
    -- too late to be swept, but then the server was told to stop and the new one is closed at once
    refine ⟨h.told, fun hd k hk => ?_, hdown⟩
    rcases List.mem_append.1 hk with hk | hk
    · exact h.swept hd k hk
    · obtain ⟨first, hfirst⟩ := hd
      rw [List.mem_singleton.1 hk]
      exact .inl (late (h.told (List.ne_nil_of_mem hfirst)).2)
  | @ends l mem able =>
    refine ⟨h.told, fun hd k' hk' => ?_, hdown⟩
    obtain ⟨k, hk, rfl⟩ := List.mem_map.1 hk'
    rw [endLink_id]
    unfold endLink
    split
    · exact .inl ((ho.tended l mem).ends able).1
    · exact h.swept hd k hk
  | draws | opens _ | takes _ _ | yields _ | shuts _ | refuses _ _ =>
    exact ⟨h.told, h.swept, hdown⟩
  | stops first =>
    refine ⟨fun _ => ⟨rfl, rfl⟩, fun hd => h.swept ?_, fun hr => hdown ?_⟩
    · obtain ⟨again, hagain⟩ := hd
      exact ⟨again, by simpa using hagain⟩
    · simpa using hr
  | drains first =>
    refine ⟨fun _ => ⟨rfl, rfl⟩, fun _ => sweep ho hb, fun hr => hdown ?_⟩
    simpa using hr
  | collapses _ =>
    refine ⟨fun hs => ⟨(h.told hs).1, rfl⟩, fun hd l hl => ?_, hdown⟩
    exact (h.swept hd l hl).imp_right (List.mem_append_left _)
  | joins waits _ =>
    -- whoever was let in before the accept loop ended is registered by now
    have hstops : b.stops ≠ [] := List.ne_nil_of_mem (List.mem_of_getElem? waits)
    refine ⟨fun _ => h.told hstops, fun _ => sweep ho hb, fun hr => hdown ?_⟩
    exact (List.mem_or_eq_of_mem_set hr).resolve_right nofun
  | returns waits shut swept ended =>
    have hstops : b.stops ≠ [] := List.ne_nil_of_mem (List.mem_of_getElem? waits)
    refine ⟨fun _ => h.told hstops, fun hd => h.swept ?_, fun _ => ?_⟩
    · obtain ⟨first, hfirst⟩ := hd
      exact ⟨first, (List.mem_or_eq_of_mem_set hfirst).resolve_right nofun⟩
    · exact ⟨(h.told hstops).1, shut, ended⟩

theorem acts (h : Swept b) (ho : Orderly b) (hb : Balanced k b) (hk : k < UInt64.size)
    (hacts : Acts b b') : Swept b' := by
  induction hacts with
  | refl => exact h
  | tail before last ih => exact ih.act (ho.acts before) (hb.acts ho hk before) last

end Swept

theorem swept_new (s : ServerSetup) : Swept (new s).books :=
  ⟨fun hs => absurd rfl hs, fun ⟨_, hd⟩ => absurd hd List.not_mem_nil,
    fun hr => absurd hr List.not_mem_nil⟩

/-- While a caller that stops the server waits for all tasks, each connection there is has been
closed or is about to be. -/
theorem swept_of_draining (hmax : s.settings.maxConnections < UInt64.size) {ls : List Label}
    (run : Steps s (new s) ls sv) {first : Bool} (hdrains : .draining first ∈ sv.stops) :
    ∀ l ∈ sv.links, l.isClosed = true ∨ l.id ∈ sv.closing := by
  obtain ⟨_, hacts⟩ := acts_of_steps run (orderly_new s)
  have hswept := (swept_new s).acts (orderly_new s) (balanced_new s) hmax hacts
  exact hswept.swept ⟨first, hdrains⟩

/-! ## When a caller has come back -/

/-- Nothing is left that could run. -/
structure Rests (s : ServerSetup) (sv : Server) : Prop where
  accepts : sv.acceptor.isOver = true
  registered : sv.registered = []
  active : sv.metrics.connectionsActive = 0
  /-- All that were ever let in are closed, and the handler was told so of each, once. -/
  admitted : sv.admissions.reverse = sv.links.map Link.id
  closed : ∀ l ∈ sv.links, l.connection.stage = .closed ∧ l.farewells = 1
  starts : ∀ r, ∃ e, sv.startOn s r = .error e
  started : ∀ address, sv.start s address = .error (.fatal "server already started")

theorem rests_of_down (ho : Orderly sv.books) (hb : Balanced k sv.books) (hd : Down sv.books) :
    Rests s sv := by
  have hregistered : sv.registered = [] := by
    have halive : sv.registered = alive sv.links := hb.registered
    refine halive.trans (List.eq_nil_iff_forall_not_mem.2 fun id hid => ?_)
    obtain ⟨l, hl, _, hended⟩ := mem_alive.1 hid
    exact absurd (hended.symm.trans (hd.ended l hl)) Bool.false_ne_true
  have hstarts : ∀ address, sv.start s address = .error (.fatal "server already started") := by
    intro address
    have hstopped : sv.stopped = true := hd.stopped
    rw [start, hstopped]
    rfl
  refine
    { accepts := Acceptor.door_eq_shut.1 hd.shut
      registered := hregistered
      active := ?_
      admitted := ?_
      closed := fun l hl => ?_
      starts := fun r => ?_
      started := hstarts }
  · have hactive : sv.metrics.connectionsActive.toNat = sv.registered.length := hb.active
    rw [hregistered] at hactive
    exact UInt64.toNat_inj.1 hactive
  · have hadmissions : sv.admissions = (sv.links.map Link.id).reverse := hb.admissions
    rw [hadmissions, List.reverse_reverse]
  · have htended := ho.tended l hl
    have hclosed := htended.closed (hd.ended l hl)
    exact ⟨htended.stage_eq hclosed, htended.farewells_eq hclosed⟩
  · cases r with
    | ok address => exact ⟨_, hstarts address⟩
    | error f => exact ⟨_, rfl⟩

/-- When a caller that stops the server has come back, the server rests, and it will do so for ever:
no one is let in, and the handler is told of no start. -/
theorem shutdown (hmax : s.settings.maxConnections < UInt64.size) {ls : List Label}
    (run : Steps s (new s) ls sv) (hreturned : .returned ∈ sv.stops) :
    Rests s sv ∧ ∀ later sv', Steps s sv later sv' →
      Rests s sv' ∧ sv'.admissions = sv.admissions ∧
        sv'.links.map (fun l => (l.id, l.greetings)) =
          sv.links.map fun l => (l.id, l.greetings) := by
  obtain ⟨ho, hacts⟩ := acts_of_steps run (orderly_new s)
  have hb := (balanced_new s).acts (orderly_new s) hmax hacts
  have hswept := (swept_new s).acts (orderly_new s) (balanced_new s) hmax hacts
  have hdown : Down sv.books := hswept.returned hreturned
  refine ⟨rests_of_down ho hb hdown, fun later sv' more => ?_⟩
  obtain ⟨ho', hmore⟩ := acts_of_steps more ho
  obtain ⟨hdown', hsame⟩ := hdown.acts ho hmore
  obtain ⟨hadmissions, hlinks⟩ := Prod.mk.inj hsame
  exact ⟨rests_of_down ho' (hb.acts ho hmax hmore) hdown', hadmissions, hlinks⟩

/-- Two callers stop the server. The second has swept the register when a socket is still let in;
that connection is closed at once. The second caller comes back before the first. -/
theorem shutdown_of_overtaken_accept :
    let s : ServerSetup :=
      { settings := .standard
        connection := { ConnectionSettings.standard with rateLimit := .zero false }
        framing := .field 64
        handler := .quiet
        chance := fun _ delay => delay }
    let ls : List Label :=
      [.start "127.0.0.1:9000", .acceptGo, .accept (.ok "127.0.0.1:5001"), .begin 1, .stop, .stop,
        .accept (.ok "127.0.0.1:5002"), .closeGo 1, .acceptCancelled, .stopGo 0, .closeGo 2,
        .closeGo 1, .wake 1 .reader .go, .wake 1 .writer .go, .wake 1 .idler .go,
        .wake 1 .idler .cancelled, .wake 1 .runner .go, .begin 2, .finish 2, .finish 1, .stopGo 1]
    ∃ sv, s.settings.maxConnections < UInt64.size ∧ Steps s (new s) ls sv ∧
      sv.stops = [.draining true, .returned] ∧
      sv.links.map (fun l => (l.id, l.greetings)) = [(1, 1), (2, 0)] ∧
      Rests s sv ∧ ∀ later sv', Steps s sv later sv' →
        Rests s sv' ∧ sv'.admissions = sv.admissions ∧
          sv'.links.map (fun l => (l.id, l.greetings)) =
            sv.links.map fun l => (l.id, l.greetings) := by
  intro s ls
  have hseen : (follow s (new s) ls).map (fun sv =>
      (sv.stops, sv.links.map fun l => (l.id, l.greetings))) =
      some ([.draining true, .returned], [(1, 1), (2, 0)]) := by
    decide +kernel
  obtain ⟨sv, hrun, hsv⟩ := Option.map_eq_some_iff.1 hseen
  obtain ⟨hstops, hlinks⟩ := Prod.mk.inj hsv
  have hmax : s.settings.maxConnections < UInt64.size := by decide
  have hsteps := steps_of_follow hrun
  have hreturned : .returned ∈ sv.stops := by rw [hstops]; decide
  exact ⟨sv, hmax, hsteps, hstops, hlinks, shutdown hmax hsteps hreturned⟩

end Server
end FrameEngine
