import FrameEngine.Proofs.Settings.Restriction
import FrameEngine.Proofs.Toml.Tables

/-!
# FrameEngine.Proofs.Settings.Saving

Settings survive being saved. Their document can be written unless an integer is too large for it,
and what is left of it when entries are deleted is read as the settings with the defaults in the
place of those (`read_of_write`). The document becomes a table for each section
(`parse?_documentText_keep`), and the tables are read as in `Settings.Restriction`.
-/

namespace FrameEngine

/-! ## Integers -/

/-- The integers of a policy, and its spans in milliseconds. -/
def RetryPolicy.integers (p : RetryPolicy) : List Nat :=
  [p.maxRetries, p.baseDelay.millis, p.maxDelay.millis]

def ServerSettings.integers (s : ServerSettings) : List Nat :=
  [s.maxConnections, s.refuseBackoff.millis] ++ s.retry.integers

def ClientSettings.integers (s : ClientSettings) : List Nat :=
  [s.connectTimeout.millis, s.maxRetries, s.retryDelay.millis]

def ConnectionSettings.integers (s : ConnectionSettings) : List Nat :=
  [s.maxMessageSize, s.readBufferSize, s.sendQueueSize, s.idleTimeout.millis,
   s.idleCheckInterval.millis, s.writeTimeout.millis, s.rateBurst] ++ s.retry.integers

/-- The integers of settings, and their spans in milliseconds. -/
def Settings.integers (s : Settings) : List Nat :=
  s.server.integers ++ s.client.integers ++ s.connection.integers

namespace Document

open Toml (Entry Section Scalar Members membersOf)

/-! ## Keys

The entries of a section are in the order of its keys. -/

theorem keys_serverEntries (s : ServerSettings) :
    ((serverEntries s).map Entry.key).Sublist serverKeys :=
  List.dropLast_sublist serverKeys

theorem keys_retryEntries (p : RetryPolicy) :
    ((retryEntries p).map Entry.key).Sublist retryKeys := .refl retryKeys

theorem keys_clientEntries (s : ClientSettings) :
    ((clientEntries s).map Entry.key).Sublist clientKeys := .refl clientKeys

theorem keys_connectionEntries (s : ConnectionSettings) :
    ((connectionEntries s).map Entry.key).Sublist connectionKeys :=
  List.dropLast_sublist connectionKeys

theorem keys_loggingEntries (s : LoggingSettings) :
    ((loggingEntries s).map Entry.key).Sublist loggingKeys := by
  rw [loggingEntries]
  cases s.filePath with
  | none => exact List.eraseIdx_sublist loggingKeys 4
  | some path => exact .refl loggingKeys

/-! ## What can be written

An integer that is small enough to be written can be read, and finite numbers always can. -/

theorem readable_of_isWritable {n : Nat} (h : isWritable (.integer n) = true) :
    (Scalar.integer n).Readable := by
  have hle : (n : Int) ≤ maxInteger := by simpa [isWritable] using h
  have hpos : 0 < signedLimit := by decide
  simp only [Scalar.Readable, isSigned64, maxInteger, decide_eq_true_eq] at hle ⊢
  omega

theorem readable_retryEntries {p : RetryPolicy} (h : p.InRange) :
    ∀ e ∈ retryEntries p, isWritable e.value = true → e.value.Readable := by
  simp only [retryEntries, List.forall_mem_cons]
  exact ⟨readable_of_isWritable, readable_of_isWritable, readable_of_isWritable,
    fun _ => h.jitter, by simp⟩

theorem readable_serverEntries (s : ServerSettings) :
    ∀ e ∈ serverEntries s, isWritable e.value = true → e.value.Readable := by
  simp only [serverEntries, List.forall_mem_cons]
  exact ⟨fun _ => trivial, readable_of_isWritable, readable_of_isWritable, by simp⟩

theorem readable_clientEntries (s : ClientSettings) :
    ∀ e ∈ clientEntries s, isWritable e.value = true → e.value.Readable := by
  simp only [clientEntries, List.forall_mem_cons]
  exact ⟨fun _ => trivial, readable_of_isWritable, readable_of_isWritable, readable_of_isWritable,
    by simp⟩

theorem readable_connectionEntries {s : ConnectionSettings} (h : s.InRange) :
    ∀ e ∈ connectionEntries s, isWritable e.value = true → e.value.Readable := by
  simp only [connectionEntries, List.forall_mem_cons]
  exact ⟨fun _ => trivial, readable_of_isWritable, readable_of_isWritable, readable_of_isWritable,
    readable_of_isWritable, readable_of_isWritable, readable_of_isWritable, fun _ => h.rateLimit,
    readable_of_isWritable, by simp⟩

/-- There are no numbers in what is logged. -/
theorem loggingEntries_free (s : LoggingSettings) :
    ∀ e ∈ loggingEntries s, isWritable e.value = true ∧ e.value.Readable := by
  simp only [loggingEntries, List.forall_mem_append, List.forall_mem_cons]
  refine ⟨⟨⟨⟨rfl, trivial⟩, ⟨rfl, trivial⟩, ⟨rfl, trivial⟩, ⟨rfl, trivial⟩, by simp⟩, ?_⟩,
    ⟨rfl, trivial⟩, by simp⟩
  cases s.filePath with
  | none => simp
  | some path =>
    intro e he
    rw [List.mem_singleton.1 he]
    exact ⟨rfl, trivial⟩

/-! ### The largest integer -/

theorem isWritable_retryEntries {p : RetryPolicy} (h : p.InRange) :
    (∀ e ∈ retryEntries p, isWritable e.value = true) ↔ ∀ n ∈ p.integers, n ≤ maxInteger := by
  simp [retryEntries, RetryPolicy.integers, natEntry, spanEntry, realEntry, isWritable,
    millisWord_eq h.baseDelay, millisWord_eq h.maxDelay]

theorem isWritable_serverEntries {s : ServerSettings} (h : s.InRange) :
    ((∀ e ∈ serverEntries s, isWritable e.value = true) ∧
      ∀ e ∈ retryEntries s.retry, isWritable e.value = true) ↔
    ∀ n ∈ s.integers, n ≤ maxInteger := by
  rw [isWritable_retryEntries h.retry, ServerSettings.integers, List.forall_mem_append]
  simp [serverEntries, textEntry, natEntry, spanEntry, isWritable, millisWord_eq h.refuseBackoff]

theorem isWritable_clientEntries {s : ClientSettings} (h : s.InRange) :
    (∀ e ∈ clientEntries s, isWritable e.value = true) ↔ ∀ n ∈ s.integers, n ≤ maxInteger := by
  simp [clientEntries, ClientSettings.integers, textEntry, natEntry, spanEntry, isWritable,
    millisWord_eq h.connectTimeout, millisWord_eq h.retryDelay]

theorem isWritable_connectionEntries {s : ConnectionSettings} (h : s.InRange) :
    ((∀ e ∈ connectionEntries s, isWritable e.value = true) ∧
      ∀ e ∈ retryEntries s.retry, isWritable e.value = true) ↔
    ∀ n ∈ s.integers, n ≤ maxInteger := by
  rw [isWritable_retryEntries h.retry, ConnectionSettings.integers, List.forall_mem_append]
  simp [connectionEntries, textEntry, natEntry, spanEntry, realEntry, isWritable,
    millisWord_eq h.idleTimeout, millisWord_eq h.idleCheckInterval, millisWord_eq h.writeTimeout]

theorem isWritable_sections {s : Settings} (h : s.InRange) :
    (∀ t ∈ sections s, ∀ e ∈ t.entries, isWritable e.value = true) ↔
      ∀ n ∈ s.integers, n ≤ maxInteger := by
  simp only [sections, List.forall_mem_cons, Settings.integers, List.forall_mem_append]
  rw [← isWritable_serverEntries h.server, ← isWritable_clientEntries h.client,
    ← isWritable_connectionEntries h.connection]
  have hlogging : ∀ e ∈ loggingEntries s.logging, isWritable e.value = true :=
    fun e he => (loggingEntries_free _ e he).1
  constructor
  · rintro ⟨hserver, hserverRetry, hclient, hconnection, hconnectionRetry, -, -⟩
    exact ⟨⟨⟨hserver, hserverRetry⟩, hclient⟩, hconnection, hconnectionRetry⟩
  · rintro ⟨⟨⟨hserver, hserverRetry⟩, hclient⟩, hconnection, hconnectionRetry⟩
    exact ⟨hserver, hserverRetry, hclient, hconnection, hconnectionRetry, hlogging, by simp⟩

theorem plain_of_sublist {path : List String} {entries : List Entry} {keys : List String}
    (hne : path ≠ []) (hlength : path.length ≤ Toml.maxKeys)
    (hbare : ∀ key ∈ path ++ keys, Toml.Bare key) (hsub : (entries.map Entry.key).Sublist keys)
    (hvalues : ∀ e ∈ entries, e.value.Readable) : Section.Plain ⟨path, entries⟩ where
  named := hne
  shallow := hlength
  path := fun key hkey => hbare key (List.mem_append_left keys hkey)
  keys := fun e he =>
    hbare e.key (List.mem_append_right path (hsub.subset (List.mem_map_of_mem he)))
  values := hvalues

/-- The sections of settings that can be written are read as they stand. -/
theorem plain_sections {s : Settings} (h : s.InRange)
    (hw : ∀ t ∈ sections s, ∀ e ∈ t.entries, isWritable e.value = true) :
    ∀ t ∈ sections s, t.Plain := by
  simp only [sections, List.forall_mem_cons] at hw ⊢
  obtain ⟨hserver, hserverRetry, hclient, hconnection, hconnectionRetry, -, -⟩ := hw
  refine ⟨?_, ?_, ?_, ?_, ?_, ?_, by simp⟩
  · exact plain_of_sublist (by decide) (by decide) (by decide) (keys_serverEntries _)
      fun e he => readable_serverEntries _ e he (hserver e he)
  · exact plain_of_sublist (by decide) (by decide) (by decide) (keys_retryEntries _)
      fun e he => readable_retryEntries h.server.retry e he (hserverRetry e he)
  · exact plain_of_sublist (by decide) (by decide) (by decide) (keys_clientEntries _)
      fun e he => readable_clientEntries _ e he (hclient e he)
  · exact plain_of_sublist (by decide) (by decide) (by decide) (keys_connectionEntries _)
      fun e he => readable_connectionEntries h.connection e he (hconnection e he)
  · exact plain_of_sublist (by decide) (by decide) (by decide) (keys_retryEntries _)
      fun e he => readable_retryEntries h.connection.retry e he (hconnectionRetry e he)
  · exact plain_of_sublist (by decide) (by decide) (by decide) (keys_loggingEntries _)
      fun e he => (loggingEntries_free _ e he).2

/-! ## Tables -/

/-- The members of a section of which some entries are kept, with tables behind them. -/
def membersLeft (kept : String → Bool) (entries : List Entry) (tables : Members) : Members :=
  membersOf (entries.filter fun e => kept e.key) ++ tables

theorem given_membersLeft {entries : List Entry} (hnodup : (entries.map Entry.key).Nodup)
    {tables : Members} (htables : ∀ e ∈ entries, Toml.find? e.key tables = none)
    (kept : String → Bool) :
    ∀ e ∈ entries, Given (fun key => Toml.find? key (membersLeft kept entries tables)) kept e := by
  intro e he
  rw [Given, membersLeft, Toml.find?_append, Toml.find?_membersOf_filter, htables e he,
    Option.or_none, Toml.find?_membersOf hnodup he]

/-- The table of a section of which some entries are kept. -/
def tableLeft (kept : String → Bool) (entries : List Entry) (tables : Members) : Toml :=
  .table .header (membersLeft kept entries tables)

/-- The members of the document of settings of which some entries are kept. -/
def documentLeft (kept : List String → String → Bool) (s : Settings) : Members :=
  [("server", tableLeft (kept ["server"]) (serverEntries s.server)
      [("retry", tableLeft (kept ["server", "retry"]) (retryEntries s.server.retry) [])]),
   ("client", tableLeft (kept ["client"]) (clientEntries s.client) []),
   ("connection", tableLeft (kept ["connection"]) (connectionEntries s.connection)
      [("retry", tableLeft (kept ["connection", "retry"]) (retryEntries s.connection.retry) [])]),
   ("logging", tableLeft (kept ["logging"]) (loggingEntries s.logging) [])]

section

variable {kept : List String → String → Bool} {before : Members} {key : String}
  {entries : List Entry}

theorem nodup_keep (hnodup : (entries.map Entry.key).Nodup) (path : List String) :
    ((Section.keep kept ⟨path, entries⟩).entries.map Entry.key).Nodup :=
  hnodup.sublist (List.filter_sublist.map Entry.key)

/-- A section without others in it. -/
theorem buildOn_leaf (hkey : Toml.find? key before = none)
    (hnodup : (entries.map Entry.key).Nodup) (last : List String) (rest : List Toml.Statement) :
    Toml.buildOn last before ((Section.keep kept ⟨[key], entries⟩).statements ++ rest) =
      Toml.buildOn [key] (before ++ [(key, tableLeft (kept [key]) entries [])]) rest := by
  have hfresh : Toml.Spine.Fresh [] := by simp [Toml.Spine.Fresh]
  have hbuild := Toml.buildOn_statements hfresh hkey (s := Section.keep kept ⟨[key], entries⟩) rfl
    (nodup_keep hnodup [key]) last rest
  rw [Toml.nest] at hbuild
  rw [hbuild, tableLeft, membersLeft, List.append_nil]
  rfl

/-- A section with one in it. -/
theorem buildOn_parent (hkey : Toml.find? key before = none)
    (hnodup : (entries.map Entry.key).Nodup) {inner : String} {below : List Entry}
    (hinner : inner ∉ entries.map Entry.key) (hbelow : (below.map Entry.key).Nodup)
    (last : List String) (rest : List Toml.Statement) :
    Toml.buildOn last before ((Section.keep kept ⟨[key], entries⟩).statements ++
        ((Section.keep kept ⟨[key, inner], below⟩).statements ++ rest)) =
      Toml.buildOn [key, inner] (before ++ [(key, tableLeft (kept [key]) entries
        [(inner, tableLeft (kept [key, inner]) below [])])]) rest := by
  have hopen : Toml.Spine.Fresh [(before, key)] := by simpa [Toml.Spine.Fresh] using hkey
  have hfresh : Toml.find? inner (membersLeft (kept [key]) entries []) = none := by
    rw [membersLeft, List.append_nil, Toml.find?_membersOf_filter,
      Toml.find?_membersOf_of_notMem hinner, ite_self]
  have hbuild := Toml.buildOn_statements hopen hfresh (s := Section.keep kept ⟨[key, inner], below⟩)
    rfl (nodup_keep hbelow [key, inner]) [key] rest
  rw [buildOn_leaf hkey hnodup]
  refine hbuild.trans ?_
  simp [Toml.nest, tableLeft, membersLeft, Section.keep]

end

theorem nodup_serverEntries (s : ServerSettings) : ((serverEntries s).map Entry.key).Nodup :=
  .sublist (keys_serverEntries s) (by decide)

theorem nodup_retryEntries (p : RetryPolicy) : ((retryEntries p).map Entry.key).Nodup :=
  .sublist (keys_retryEntries p) (by decide)

theorem nodup_clientEntries (s : ClientSettings) : ((clientEntries s).map Entry.key).Nodup :=
  .sublist (keys_clientEntries s) (by decide)

theorem nodup_connectionEntries (s : ConnectionSettings) :
    ((connectionEntries s).map Entry.key).Nodup :=
  .sublist (keys_connectionEntries s) (by decide)

theorem nodup_loggingEntries (s : LoggingSettings) : ((loggingEntries s).map Entry.key).Nodup :=
  .sublist (keys_loggingEntries s) (by decide)

theorem retry_notMem_serverEntries (s : ServerSettings) :
    "retry" ∉ (serverEntries s).map Entry.key := by
  simp [serverEntries, textEntry, natEntry, spanEntry]

theorem retry_notMem_connectionEntries (s : ConnectionSettings) :
    "retry" ∉ (connectionEntries s).map Entry.key := by
  simp [connectionEntries, textEntry, natEntry, spanEntry, realEntry]

theorem build?_sections (kept : List String → String → Bool) (s : Settings) :
    Toml.build? (((sections s).map (Section.keep kept)).flatMap Section.statements) =
      some (documentLeft kept s) := by
  simp only [sections, List.map_cons, List.map_nil, List.flatMap_cons, List.flatMap_nil]
  rw [Toml.build?, buildOn_parent rfl (nodup_serverEntries _) (retry_notMem_serverEntries _)
      (nodup_retryEntries _),
    buildOn_leaf (by simp [Toml.find?]) (nodup_clientEntries _),
    buildOn_parent (by simp [Toml.find?]) (nodup_connectionEntries _)
      (retry_notMem_connectionEntries _) (nodup_retryEntries _),
    buildOn_leaf (by simp [Toml.find?]) (nodup_loggingEntries _)]
  rfl

/-- What is left of a document is a table for each section, with the members that are left. -/
theorem parse?_documentText_keep {s : Settings} (h : ∀ t ∈ sections s, t.Plain)
    (kept : List String → String → Bool) :
    Toml.parse? (String.ofList (Toml.documentText ((sections s).map (Section.keep kept)))) =
      some (documentLeft kept s) := by
  have hplain : ∀ t ∈ (sections s).map (Section.keep kept), t.Plain := by
    intro t ht
    obtain ⟨whole, hwhole, rfl⟩ := List.mem_map.1 ht
    exact (h whole hwhole).keep kept
  rw [Toml.parse?, Toml.statements?_documentText hplain]
  exact build?_sections kept s

/-! ## What is read -/

theorem readRetry_left {p : RetryPolicy} (h : p.InRange) (kept : String → Bool) :
    readRetry (tableLeft kept (retryEntries p) []) = some (p.restrict kept) :=
  readRetry_of_given rfl h (given_membersLeft (nodup_retryEntries p) (fun _ _ => rfl) kept)

section

variable {entries : List Entry} {key : String}

theorem find?_inner (hkey : key ∉ entries.map Entry.key) (kept : String → Bool) (w : Toml) :
    Toml.find? key (membersLeft kept entries [(key, w)]) = some w := by
  simp [membersLeft, Toml.find?_append, Toml.find?_membersOf_filter,
    Toml.find?_membersOf_of_notMem hkey, Toml.find?]

theorem find?_entry (hkey : key ∉ entries.map Entry.key) (w : Toml) :
    ∀ e ∈ entries, Toml.find? e.key [(key, w)] = none := by
  intro e he
  have hne : key ≠ e.key := fun heq => hkey (heq ▸ List.mem_map_of_mem he)
  simp [Toml.find?, hne]

end

theorem readServer_left {s : ServerSettings} (h : s.InRange) (kept keptRetry : String → Bool) :
    readServer (tableLeft kept (serverEntries s)
      [("retry", tableLeft keptRetry (retryEntries s.retry) [])]) =
      some (s.restrict kept keptRetry) :=
  have hretry := retry_notMem_serverEntries s
  readServer_of_given rfl h
    (given_membersLeft (nodup_serverEntries s) (find?_entry hretry _) kept)
    (find?_inner hretry kept _) (readRetry_left h.retry keptRetry)

theorem readConnection_left {s : ConnectionSettings} (h : s.InRange)
    (kept keptRetry : String → Bool) :
    readConnection (tableLeft kept (connectionEntries s)
      [("retry", tableLeft keptRetry (retryEntries s.retry) [])]) =
      some (s.restrict kept keptRetry) :=
  have hretry := retry_notMem_connectionEntries s
  readConnection_of_given rfl h
    (given_membersLeft (nodup_connectionEntries s) (find?_entry hretry _) kept)
    (find?_inner hretry kept _) (readRetry_left h.retry keptRetry)

theorem readClient_left {s : ClientSettings} (h : s.InRange) (kept : String → Bool) :
    readClient (tableLeft kept (clientEntries s) []) = some (s.restrict kept) :=
  readClient_of_given rfl h (given_membersLeft (nodup_clientEntries s) (fun _ _ => rfl) kept)

theorem readLogging_left (s : LoggingSettings) (kept : String → Bool) :
    readLogging (tableLeft kept (loggingEntries s) []) = some (s.restrict kept) := by
  refine readLogging_of_given rfl
    (given_membersLeft (nodup_loggingEntries s) (fun _ _ => rfl) kept) fun hpath => ?_
  have habsent : "log_file_path" ∉ (loggingEntries s).map Entry.key := by
    simp [loggingEntries, hpath, textEntry, boolEntry]
  simp [membersLeft, Toml.find?_membersOf_filter, Toml.find?_membersOf_of_notMem habsent]

theorem ofMembers?_documentLeft {s : Settings} (h : s.InRange)
    (kept : List String → String → Bool) :
    ofMembers? (documentLeft kept s) = some (s.restrict kept) := by
  have hserver := readServer_left h.server (kept ["server"]) (kept ["server", "retry"])
  have hclient := readClient_left h.client (kept ["client"])
  have hconnection :=
    readConnection_left h.connection (kept ["connection"]) (kept ["connection", "retry"])
  have hlogging := readLogging_left s.logging (kept ["logging"])
  simp only [ofMembers?, Option.bind_eq_bind]
  rw [setting_of_read rfl hserver, setting_of_read rfl hclient, setting_of_read rfl hconnection,
    setting_of_read rfl hlogging]
  rfl

/-- The text of the document of settings without the entries that are not kept. -/
def textLeft (kept : List String → String → Bool) (s : Settings) : String :=
  String.ofList (((Toml.pieces (sections s)).filter (Toml.Piece.isLeft kept)).flatMap
    Toml.Piece.text)

theorem textLeft_all (s : Settings) :
    textLeft (fun _ _ => true) s = String.ofList (Toml.documentText (sections s)) := by
  have hall : (Toml.pieces (sections s)).filter (Toml.Piece.isLeft fun _ _ => true) =
      Toml.pieces (sections s) := by
    refine List.filter_eq_self.2 fun p _ => ?_
    cases p <;> rfl
  rw [textLeft, hall, Toml.text_pieces]

theorem write_eq_ok_iff {s : Settings} {text : String} :
    write s = .ok text ↔
      (∀ t ∈ sections s, ∀ e ∈ t.entries, isWritable e.value = true) ∧
        text = textLeft (fun _ _ => true) s := by
  have hall : (((sections s).all fun t => t.entries.all fun e => isWritable e.value) = true) ↔
      ∀ t ∈ sections s, ∀ e ∈ t.entries, isWritable e.value = true := by
    simp only [List.all_eq_true]
  rw [write, textLeft_all, ← hall]
  split
  · next h => simp [h, eq_comm]
  · next h => simp [h]

theorem read_textLeft {s : Settings} (h : s.InRange)
    (hw : ∀ t ∈ sections s, ∀ e ∈ t.entries, isWritable e.value = true)
    (kept : List String → String → Bool) : read (textLeft kept s) = .ok (s.restrict kept) := by
  have hparse := parse?_documentText_keep (plain_sections h hw) kept
  rw [← Toml.text_filter_pieces] at hparse
  rw [read, textLeft, hparse]
  simp only [ofMembers?_documentLeft h kept]

/-- Settings in the ranges of their fields can be written exactly when no integer and no span in
milliseconds is too large. Of what is written any entries can be deleted: the rest is read, with
the settings that are left as they were and the defaults in the place of those deleted; the whole
is read as the settings. -/
theorem read_of_write {s : Settings} (h : s.InRange) :
    ((∃ text, write s = .ok text) ↔ ∀ n ∈ s.integers, n ≤ maxInteger) ∧
      ∀ text, write s = .ok text →
        text = String.ofList ((Toml.pieces (sections s)).flatMap Toml.Piece.text) ∧
        (∀ kept, read (textLeft kept s) = .ok (s.restrict kept)) ∧ read text = .ok s := by
  simp only [write_eq_ok_iff]
  refine ⟨?_, ?_⟩
  · rw [← isWritable_sections h]
    exact ⟨fun ⟨_, hw, _⟩ => hw, fun hw => ⟨_, hw, rfl⟩⟩
  · rintro text ⟨hw, rfl⟩
    have hread := read_textLeft h hw
    refine ⟨?_, hread, ?_⟩
    · rw [textLeft_all, Toml.text_pieces]
    · rw [hread, s.restrict_all]

/-- Settings with texts that need quoting of several kinds. -/
def quoted (maxConnections : Nat) : Settings :=
  { Settings.standard with
    server := { ServerSettings.standard with
      address := "a \"b\" = 'c' # \\"
      maxConnections := maxConnections
      refuseBackoff := .ofMillis maxInteger }
    logging := { LoggingSettings.standard with
      appName := "\n[client]\n\"\"\"'''\x00"
      level := .trace
      filePath := some "" } }

theorem quoted_inRange {n : Nat} (hn : n < UInt64.size) : (quoted n).InRange where
  server := ⟨hn, Span.inMillis_ofMillis (by decide), Settings.standard_inRange.server.retry⟩
  client := Settings.standard_inRange.client
  connection := Settings.standard_inRange.connection

/-- The largest number of connections is written and read, also when the addresses and everything
that is logged are deleted; one more is too many. -/
theorem read_of_write_quoted :
    (quoted maxInteger).InRange ∧
      (∃ text, write (quoted maxInteger) = .ok text ∧ read text = .ok (quoted maxInteger)) ∧
      read (textLeft (fun path key => path ≠ ["logging"] && key ≠ "address") (quoted maxInteger)) =
        .ok { Settings.standard with
          server := { ServerSettings.standard with
            maxConnections := maxInteger
            refuseBackoff := .ofMillis maxInteger } } ∧
      ¬∃ text, write (quoted (maxInteger + 1)) = .ok text := by
  have hlargest : (quoted maxInteger).InRange := quoted_inRange (by decide)
  obtain ⟨hwrite, hread⟩ := read_of_write hlargest
  obtain ⟨text, htext⟩ := hwrite.2 (by decide)
  obtain ⟨-, hleft, hwhole⟩ := hread text htext
  refine ⟨hlargest, ⟨text, htext, hwhole⟩, hleft _, fun hmore => ?_⟩
  have hfits := (read_of_write (quoted_inRange (by decide))).1.1 hmore
  exact absurd hfits (by decide)

end Document
end FrameEngine
