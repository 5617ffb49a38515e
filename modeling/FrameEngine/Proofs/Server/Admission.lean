import FrameEngine.Proofs.Server.Books

/-!
# FrameEngine.Proofs.Server.Admission

Who is let in. `Balanced` is what an entry in the books of a server keeps true of its permits, its
register and its counters: permits are free, in the hands of the accept loop or with those who are
registered, and none gets lost. `admission` is what that means for the sockets that come.
-/

namespace FrameEngine
namespace Server

open Books

variable {s : ServerSetup} {sv sv' : Server} {k : Nat} {b b' : Books}

/-- The numbers of the links whose tasks have not ended, the latest first. -/
def alive (links : List Link) : List Nat := ((links.filter fun l => !l.ended).map Link.id).reverse

theorem alive_append (links more : List Link) :
    alive (links ++ more) = alive more ++ alive links := by
  rw [alive, List.filter_append, List.map_append, List.reverse_append]
  rfl

theorem alive_map {links : List Link} {f : Link → Link} (hid : ∀ l ∈ links, (f l).id = l.id)
    (hended : ∀ l ∈ links, (f l).ended = l.ended) : alive (links.map f) = alive links := by
  have hfilter : links.filter ((fun l => !l.ended) ∘ f) = links.filter fun l => !l.ended :=
    List.filter_congr fun l hl => congrArg not (hended l hl)
  rw [alive, alive, List.filter_map, hfilter, List.map_map]
  refine congrArg List.reverse (List.map_congr_left fun l hl => ?_)
  exact hid l (List.mem_filter.1 hl).1

theorem alive_endLink (l : Link) (links : List Link) :
    alive (links.map (endLink l)) = (alive links).filter (· ≠ l.id) := by
  have hboth : ∀ k : Link, (!(endLink l k).ended) = ((decide (k.id ≠ l.id)) && !k.ended) := by
    intro k
    unfold endLink
    split
    · rename_i hid
      rw [decide_eq_false (not_not_intro hid)]
      rfl
    · rename_i hid
      rw [decide_eq_true hid]
      rfl
  have hfilter : links.filter ((fun k => !k.ended) ∘ endLink l) =
      (links.filter fun k => !k.ended).filter ((· ≠ l.id) ∘ Link.id) := by
    rw [List.filter_filter]
    exact List.filter_congr fun k _ => hboth k
  rw [alive, alive, List.filter_map, hfilter, List.filter_reverse, List.filter_map, List.map_map]
  exact congrArg List.reverse (List.map_congr_left fun k _ => endLink_id l k)

theorem mem_alive {links : List Link} {id : Nat} :
    id ∈ alive links ↔ ∃ l ∈ links, l.id = id ∧ l.ended = false := by
  rw [alive, List.mem_reverse, List.mem_map]
  constructor
  · rintro ⟨l, hl, rfl⟩
    obtain ⟨hmem, hended⟩ := List.mem_filter.1 hl
    exact ⟨l, hmem, rfl, by simpa using hended⟩
  · rintro ⟨l, hmem, rfl, hended⟩
    exact ⟨l, List.mem_filter.2 ⟨hmem, by rw [hended]; rfl⟩, rfl⟩

theorem nodup_alive {links : List Link} (h : (links.map Link.id).Pairwise (· < ·)) :
    (alive links).Nodup := by
  have hall : (links.map Link.id).Nodup := h.imp Nat.ne_of_lt
  exact List.nodup_reverse.2 (hall.sublist (List.filter_sublist.map Link.id))

/-! ## The balance -/

structure Balanced (k : Nat) (b : Books) : Prop where
  /-- Every permit is somewhere. -/
  permits : b.permits + b.registered.length + b.door.hasPermit.toNat = k
  active : b.active.toNat = b.registered.length
  registered : b.registered = alive b.links
  admissions : b.admissions = (b.links.map Link.id).reverse
  refused : b.refused = .ofNat b.refusals
  notices : b.notices = b.refusals
  /-- No one can start the server while its accept loop runs. -/
  attends : b.door = .shut ∨ b.running = true ∨ b.stopped = true

namespace Balanced

theorem length_le (h : Balanced k b) : b.registered.length ≤ k := by
  have := h.permits
  omega

theorem of_moves {f : Link → Link} (h : Balanced k b) (hmoves : ∀ l ∈ b.links, l.Moves (f l)) :
    Balanced k { b with links := b.links.map f } :=
  { h with
    registered := h.registered.trans
      (alive_map (fun l hl => (hmoves l hl).id_eq) fun l hl => (hmoves l hl).ended_eq).symm
    admissions := h.admissions.trans (congrArg List.reverse (map_moves_id hmoves).symm) }

/-- The next number is not in the register yet, so that nothing is taken out for it. -/
theorem filter_next (h : Balanced k b) (ho : Orderly b) :
    b.registered.filter (· ≠ b.nextId) = b.registered := by
  refine List.filter_eq_self.2 fun id hid => ?_
  rw [h.registered] at hid
  obtain ⟨l, hl, rfl, _⟩ := mem_alive.1 hid
  exact decide_eq_true (Nat.ne_of_lt (ho.below l hl))

theorem letIn {l : Link} (h : Balanced k b) (ho : Orderly b) (hk : k < UInt64.size)
    (held : b.door = .attended true) (next : l.id = b.nextId) (lives : l.ended = false) :
    Balanced k { b.enter l with door := .attended false } := by
  rw [enter, h.filter_next ho]
  have hpermits := h.permits
  have hheld : b.door.hasPermit.toNat = 1 := by rw [held]; rfl
  have hroom : b.registered.length + 1 < UInt64.size := by omega
  refine { h with
    permits := ?_
    active := ?_
    registered := ?_
    admissions := ?_
    attends := h.attends.imp_left fun hshut => by rw [held] at hshut; cases hshut }
  · show b.permits + (b.registered.length + 1) + 0 = k
    omega
  · show (b.active + 1).toNat = b.registered.length + 1
    rw [UInt64.toNat_add, h.active]
    exact Nat.mod_eq_of_lt hroom
  · have hnew : alive [l] = [b.nextId] := by
      rw [alive, List.filter_cons_of_pos (by rw [lives]; rfl), ← next]
      rfl
    rw [alive_append, hnew, ← h.registered]
    rfl
  · rw [List.map_append, List.reverse_append, h.admissions, ← next]
    rfl

/-- A connection leaves the register, and its permit is free. -/
theorem finish {l : Link} (h : Balanced k b) (ho : Orderly b) (mem : l ∈ b.links)
    (able : l.canEnd = true) :
    Balanced k { b with
      links := b.links.map (endLink l)
      registered := b.registered.filter (· ≠ l.id)
      permits := b.permits + 1
      active := if b.active = 0 then b.active else b.active - 1 } := by
  have hpermits := h.permits
  have lives : l.ended = false := by
    simp only [Link.canEnd, Bool.and_eq_true, Bool.not_eq_true'] at able
    exact able.2
  -- its task has not ended, so it is in the register, and there once
  have hmem : l.id ∈ b.registered := h.registered ▸ mem_alive.2 ⟨l, mem, rfl, lives⟩
  have hnodup : b.registered.Nodup := h.registered ▸ nodup_alive ho.rising
  have hlength : (b.registered.filter (· ≠ l.id)).length + 1 = b.registered.length := by
    have herase : b.registered.erase l.id = b.registered.filter (· ≠ l.id) := by
      rw [hnodup.erase_eq_filter]
      exact List.filter_congr fun id _ => by rw [decide_not]; rfl
    rw [← herase, List.length_erase_of_mem hmem]
    have hpos := List.length_pos_of_mem hmem
    omega
  have hone : 1 ≤ b.active.toNat := by rw [h.active]; omega
  have hle : (1 : UInt64) ≤ b.active := UInt64.le_iff_toNat_le.2 hone
  have hsome : b.active ≠ 0 := fun hzero => by
    rw [hzero] at hone
    cases hone
  refine { h with permits := ?_, active := ?_, registered := ?_, admissions := ?_ }
  · show b.permits + 1 + (b.registered.filter (· ≠ l.id)).length + b.door.hasPermit.toNat = k
    omega
  · show (if b.active = 0 then b.active else b.active - 1).toNat = _
    rw [if_neg hsome, UInt64.toNat_sub_of_le _ _ hle, h.active]
    show b.registered.length - 1 = (b.registered.filter (· ≠ l.id)).length
    omega
  · rw [alive_endLink, ← h.registered]
  · rw [map_endLink_id, h.admissions]

theorem act (h : Balanced k b) (ho : Orderly b) (hk : k < UInt64.size) (hact : Act b b') :
    Balanced k b' := by
  have hpermits := h.permits
  have hattends : ∀ permit, b.door = .attended permit → b.running = true ∨ b.stopped = true :=
    fun permit hdoor => h.attends.resolve_left (by rw [hdoor]; nofun)
  cases hact with
  | serves hmoves => exact h.of_moves hmoves
  | closes _ hmoves _ => exact { h.of_moves hmoves with }
  | draws => exact { h with }
  | opens fresh =>
    -- with an accept loop it would be running, or stopped
    have hshut : b.door = .shut := by
      rcases h.attends with hshut | hrunning | hstopped
      · exact hshut
      · rw [fresh.2] at hrunning; cases hrunning
      · rw [fresh.1] at hstopped; cases hstopped
    rw [hshut] at hpermits
    exact { h with permits := hpermits, attends := .inr (.inl rfl) }
  | @takes n empty free =>
    have hnone : b.door.hasPermit.toNat = 0 := by rw [empty]; rfl
    refine { h with permits := ?_, attends := .inr (hattends _ empty) }
    show n + b.registered.length + 1 = k
    omega
  | yields held =>
    have hheld : b.door.hasPermit.toNat = 1 := by rw [held]; rfl
    refine { h with permits := ?_, attends := .inr (hattends _ held) }
    show b.permits + 1 + b.registered.length + 0 = k
    omega
  | @shuts permit attended | @collapses permit attended =>
    have hhas : b.door.hasPermit.toNat = permit.toNat := by rw [attended]; rfl
    refine { h with permits := ?_, attends := .inl rfl }
    show b.permits + permit.toNat + b.registered.length + 0 = k
    omega
  | admits held next _ lives _ => exact h.letIn ho hk held next lives
  | refuses empty full =>
    refine { h with refused := ?_, notices := congrArg (· + 1) h.notices }
    show b.refused + 1 = .ofNat (b.refusals + 1)
    rw [h.refused, UInt64.ofNat_add]
    rfl
  | ends mem able => exact h.finish ho mem able
  | stops first => exact { h with attends := .inr (.inr rfl) }
  | drains first => exact { h with attends := .inr (.inr rfl) }
  | joins _ _ => exact { h with }
  | returns _ shut _ _ => exact { h with attends := .inl shut }

theorem acts (h : Balanced k b) (ho : Orderly b) (hk : k < UInt64.size) (hacts : Acts b b') :
    Balanced k b' := by
  induction hacts with
  | refl => exact h
  | tail before last ih => exact ih.act (ho.acts before) hk last

end Balanced

theorem balanced_new (s : ServerSetup) : Balanced s.settings.maxConnections (new s).books :=
  ⟨rfl, rfl, rfl, rfl, rfl, rfl, .inl rfl⟩

/-! ## Sockets that come -/

/-- A socket was let in, as a connection with the next number; all who were registered still are. -/
structure Admits (sv : Server) (peer : String) (sv' : Server) : Prop where
  link : ∃ l : Link, sv'.links = sv.links ++ [l] ∧ l.id = sv.nextId ∧ l.setup.peer = some peer
  nextId : sv'.nextId = sv.nextId + 1
  registered : sv'.registered = sv.nextId :: sv.registered
  admissions : sv'.admissions = sv.nextId :: sv.admissions
  refused : sv'.metrics.connectionsRefused = sv.metrics.connectionsRefused
  notices : sv'.notices = sv.notices

/-- A socket was turned away: it is counted, the handler is told, and there is no connection. -/
structure TurnsAway (sv : Server) (sv' : Server) : Prop where
  links : sv'.links = sv.links
  nextId : sv'.nextId = sv.nextId
  registered : sv'.registered = sv.registered
  admissions : sv'.admissions = sv.admissions
  refused : sv'.metrics.connectionsRefused = sv.metrics.connectionsRefused + 1
  notices : sv'.notices = sv.notices + 1

/-- What holds of a server at every moment. -/
structure Admission (s : ServerSetup) (sv : Server) : Prop where
  bounded : sv.registered.length ≤ s.settings.maxConnections
  active : sv.metrics.connectionsActive.toNat = sv.registered.length
  permits : sv.permits + sv.registered.length + sv.acceptor.hasPermit.toNat =
    s.settings.maxConnections
  /-- The register holds those whose tasks have not ended, each once. -/
  registered : sv.registered.Nodup ∧
    ∀ id, id ∈ sv.registered ↔ ∃ l ∈ sv.links, l.id = id ∧ l.ended = false
  /-- Whoever was let in is there, under a number above all before, and those yet to come will have
  higher ones. -/
  admitted : sv.admissions.reverse = sv.links.map Link.id
  rising : sv.admissions.reverse.Pairwise (· < ·) ∧ ∀ id ∈ sv.admissions, id < sv.nextId
  refused : sv.metrics.connectionsRefused = .ofNat sv.refusals ∧ sv.notices = sv.refusals
  /-- A socket is turned away if the register is full, and let in otherwise. -/
  judges : ∀ peer sv', sv.step s (.accept (.ok peer)) = some sv' →
    if sv.registered.length = s.settings.maxConnections then TurnsAway sv sv'
    else Admits sv peer sv'
  /-- No number is given twice. -/
  draws : ∀ x sv', sv.step s x = some sv' → sv.nextId ≤ sv'.nextId

theorem admits_accepted {backoff : Backoff} (ho : Orderly sv.books) (hb : Balanced k sv.books)
    (peer : String) : Admits sv peer (sv.accepted s true backoff (.ok peer)) := by
  obtain ⟨l, hl, henter⟩ := books_letIn (s := s) ho peer
  obtain ⟨permits, door, hround⟩ := books_acceptRound (sv.letIn s peer) backoff.reset
  rw [henter] at hround
  have hregistered : sv.registered.filter (· ≠ sv.nextId) = sv.registered := hb.filter_next ho
  refine ⟨⟨l, congrArg Books.links hround, hl.id, hl.peer⟩, congrArg Books.nextId hround, ?_,
    congrArg Books.admissions hround, congrArg Books.refused hround,
    congrArg Books.notices hround⟩
  exact (congrArg Books.registered hround).trans (congrArg (sv.nextId :: ·) hregistered)

theorem turnsAway_accepted {backoff : Backoff} (peer : String) :
    TurnsAway sv (sv.accepted s false backoff (.ok peer)) := by
  have hrefuse := books_refuse s sv peer
  exact ⟨congrArg Books.links hrefuse, congrArg Books.nextId hrefuse,
    congrArg Books.registered hrefuse, congrArg Books.admissions hrefuse,
    congrArg Books.refused hrefuse, congrArg Books.notices hrefuse⟩

theorem judges_of_step {peer : String} (ho : Orderly sv.books) (hb : Balanced k sv.books)
    (h : sv.step s (.accept (.ok peer)) = some sv') :
    if sv.registered.length = k then TurnsAway sv sv' else Admits sv peer sv' := by
  have hpermits : sv.permits + sv.registered.length + sv.acceptor.door.hasPermit.toNat = k :=
    hb.permits
  obtain ⟨permit, backoff, hwaits, hfull, rfl⟩ := exists_of_accept h
  have hhas : sv.acceptor.door.hasPermit = permit := by rw [hwaits]; rfl
  rw [hhas] at hpermits
  cases permit with
  | true =>
    rw [Bool.toNat_true] at hpermits
    rw [if_neg (by omega)]
    exact admits_accepted ho hb peer
  | false =>
    rw [Bool.toNat_false, hfull rfl] at hpermits
    rw [if_pos (by omega)]
    exact turnsAway_accepted peer

/-- At every moment of every run of a server whose limit is a word of 64 bits. -/
theorem admission (hmax : s.settings.maxConnections < UInt64.size) {ls : List Label}
    (run : Steps s (new s) ls sv) : Admission s sv := by
  obtain ⟨ho, hacts⟩ := acts_of_steps run (orderly_new s)
  have hb := (balanced_new s).acts (orderly_new s) hmax hacts
  have hregistered : sv.registered = alive sv.links := hb.registered
  have hadmitted : sv.admissions.reverse = sv.links.map Link.id := by
    have hadmissions : sv.admissions = (sv.links.map Link.id).reverse := hb.admissions
    rw [hadmissions, List.reverse_reverse]
  refine
    { bounded := hb.length_le
      active := hb.active
      permits := sv.acceptor.hasPermit_door ▸ hb.permits
      registered := ⟨hregistered ▸ nodup_alive ho.rising, fun id => hregistered ▸ mem_alive⟩
      admitted := hadmitted
      rising := ⟨hadmitted ▸ ho.rising, fun id hid => ?_⟩
      refused := ⟨hb.refused, hb.notices⟩
      judges := fun peer sv' hstep => judges_of_step ho hb hstep
      draws := fun x sv' hstep => (acts_step ho hstep).nextId_le }
  rw [← List.mem_reverse, hadmitted] at hid
  obtain ⟨l, hl, rfl⟩ := List.mem_map.1 hid
  exact ho.below l hl

/-- There is room for one. The first who comes is let in, the second is turned away; the first ends,
accepting fails once, the third is let in, and the server is told to stop. -/
theorem admission_of_one_place :
    let s : ServerSetup :=
      { settings := { ServerSettings.standard with maxConnections := 1 }
        connection := { ConnectionSettings.standard with rateLimit := .zero false }
        framing := .field 64
        handler := .quiet
        chance := fun _ delay => delay }
    let ls : List Label :=
      [.start "127.0.0.1:9000", .acceptGo, .drawId, .accept (.ok "127.0.0.1:5001"),
        .accept (.ok "127.0.0.1:5002"), .close 2, .begin 2, .finish 2, .tick (.ofMillis 100) 0,
        .acceptTimer, .accept (.error (.ofKind .interrupted)), .tick (.ofMillis 1000) 0,
        .acceptTimer, .accept (.ok "127.0.0.1:5003"), .stop]
    ∃ sv, s.settings.maxConnections < UInt64.size ∧ Steps s (new s) ls sv ∧
      sv.registered = [3] ∧ sv.admissions = [3, 2] ∧ sv.refusals = 1 ∧ Admission s sv := by
  intro s ls
  have hseen : (follow s (new s) ls).map (fun sv => (sv.registered, sv.admissions, sv.refusals)) =
      some ([3], [3, 2], 1) := by
    decide +kernel
  obtain ⟨sv, hrun, hsv⟩ := Option.map_eq_some_iff.1 hseen
  simp only [Prod.mk.injEq] at hsv
  obtain ⟨hregistered, hadmissions, hrefusals⟩ := hsv
  have hmax : s.settings.maxConnections < UInt64.size := by decide
  have hsteps := steps_of_follow hrun
  exact ⟨sv, hmax, hsteps, hregistered, hadmissions, hrefusals, admission hmax hsteps⟩

end Server
end FrameEngine
