import FrameEngine.Settings.Document

/-!
# FrameEngine.Proofs.Settings.Restriction

Settings of which only some are given. A section that gives the entries which are kept is read as
its settings with the defaults in the place of the others (`Settings.restrict`), however its keys
are looked up: `readServer_of_given` and its like, from one lemma for each kind of value
(`Given.text`, `Given.span`, …).
-/

namespace FrameEngine

/-! ## The fields of settings -/

/-- A whole number of milliseconds, in 64 bits. -/
def Span.InMillis (s : Span) : Prop := ∃ n < UInt64.size, s = .ofMillis n

theorem Span.inMillis_ofMillis {n : Nat} (h : n < UInt64.size) : Span.InMillis (.ofMillis n) :=
  ⟨n, h, rfl⟩

/-- Words of 32 bits, whole milliseconds and a finite fraction. -/
structure RetryPolicy.InRange (p : RetryPolicy) : Prop where
  maxRetries : p.maxRetries < UInt32.size
  baseDelay : p.baseDelay.InMillis
  maxDelay : p.maxDelay.InMillis
  jitter : p.jitter.isFinite = true

structure ServerSettings.InRange (s : ServerSettings) : Prop where
  maxConnections : s.maxConnections < UInt64.size
  refuseBackoff : s.refuseBackoff.InMillis
  retry : s.retry.InRange

structure ClientSettings.InRange (s : ClientSettings) : Prop where
  connectTimeout : s.connectTimeout.InMillis
  maxRetries : s.maxRetries < UInt32.size
  retryDelay : s.retryDelay.InMillis

structure ConnectionSettings.InRange (s : ConnectionSettings) : Prop where
  maxMessageSize : s.maxMessageSize < UInt64.size
  readBufferSize : s.readBufferSize < UInt64.size
  sendQueueSize : s.sendQueueSize < UInt64.size
  idleTimeout : s.idleTimeout.InMillis
  idleCheckInterval : s.idleCheckInterval.InMillis
  writeTimeout : s.writeTimeout.InMillis
  rateLimit : s.rateLimit.isFinite = true
  rateBurst : s.rateBurst < UInt32.size
  retry : s.retry.InRange

/-- Every field has a value of its type, spans are whole milliseconds and numbers finite. Strings,
levels, framings and flags are free. -/
structure Settings.InRange (s : Settings) : Prop where
  server : s.server.InRange
  client : s.client.InRange
  connection : s.connection.InRange

theorem RetryPolicy.standard_inRange : RetryPolicy.standard.InRange where
  maxRetries := by decide
  baseDelay := Span.inMillis_ofMillis (by decide)
  maxDelay := Span.inMillis_ofMillis (by decide)
  jitter := by decide

/-- The defaults are in range. -/
theorem Settings.standard_inRange : Settings.standard.InRange where
  server := ⟨by decide, Span.inMillis_ofMillis (by decide), RetryPolicy.standard_inRange⟩
  client := ⟨Span.inMillis_ofMillis (by decide), by decide, Span.inMillis_ofMillis (by decide)⟩
  connection := ⟨by decide, by decide, by decide, Span.inMillis_ofMillis (by decide),
    Span.inMillis_ofMillis (by decide), Span.inMillis_ofMillis (by decide), by decide +kernel,
    by decide, RetryPolicy.standard_inRange⟩

/-! ## Settings of which only some are given -/

/-- The policy with the defaults in the place of what is not kept. -/
def RetryPolicy.restrict (kept : String → Bool) (p : RetryPolicy) : RetryPolicy :=
  let d := RetryPolicy.standard
  { maxRetries := if kept "max_retries" then p.maxRetries else d.maxRetries
    baseDelay := if kept "base_delay" then p.baseDelay else d.baseDelay
    maxDelay := if kept "max_delay" then p.maxDelay else d.maxDelay
    jitter := if kept "jitter" then p.jitter else d.jitter }

def ServerSettings.restrict (kept keptRetry : String → Bool) (s : ServerSettings) :
    ServerSettings :=
  let d := ServerSettings.standard
  { address := if kept "address" then s.address else d.address
    maxConnections := if kept "max_connections" then s.maxConnections else d.maxConnections
    refuseBackoff := if kept "refuse_backoff" then s.refuseBackoff else d.refuseBackoff
    retry := s.retry.restrict keptRetry }

def ClientSettings.restrict (kept : String → Bool) (s : ClientSettings) : ClientSettings :=
  let d := ClientSettings.standard
  { address := if kept "address" then s.address else d.address
    connectTimeout := if kept "connect_timeout" then s.connectTimeout else d.connectTimeout
    maxRetries := if kept "max_retries" then s.maxRetries else d.maxRetries
    retryDelay := if kept "retry_delay" then s.retryDelay else d.retryDelay }

def ConnectionSettings.restrict (kept keptRetry : String → Bool) (s : ConnectionSettings) :
    ConnectionSettings :=
  let d := ConnectionSettings.standard
  { framing := if kept "protocol" then s.framing else d.framing
    maxMessageSize := if kept "max_message_size" then s.maxMessageSize else d.maxMessageSize
    readBufferSize := if kept "read_buffer_size" then s.readBufferSize else d.readBufferSize
    sendQueueSize := if kept "send_queue_size" then s.sendQueueSize else d.sendQueueSize
    idleTimeout := if kept "idle_timeout" then s.idleTimeout else d.idleTimeout
    idleCheckInterval :=
      if kept "idle_check_interval" then s.idleCheckInterval else d.idleCheckInterval
    writeTimeout := if kept "write_timeout" then s.writeTimeout else d.writeTimeout
    rateLimit := if kept "rate_limit" then s.rateLimit else d.rateLimit
    rateBurst := if kept "rate_burst" then s.rateBurst else d.rateBurst
    retry := s.retry.restrict keptRetry }

def LoggingSettings.restrict (kept : String → Bool) (s : LoggingSettings) : LoggingSettings :=
  let d := LoggingSettings.standard
  { appName := if kept "app_name" then s.appName else d.appName
    level := if kept "log_level" then s.level else d.level
    toConsole := if kept "log_to_console" then s.toConsole else d.toConsole
    toFile := if kept "log_to_file" then s.toFile else d.toFile
    filePath := if kept "log_file_path" then s.filePath else d.filePath
    jsonFormat := if kept "json_format" then s.jsonFormat else d.jsonFormat }

/-- The settings with the defaults in the place of what is not kept; `kept` tells by the path of a
section and a key in it. -/
def Settings.restrict (kept : List String → String → Bool) (s : Settings) : Settings where
  server := s.server.restrict (kept ["server"]) (kept ["server", "retry"])
  client := s.client.restrict (kept ["client"])
  connection := s.connection.restrict (kept ["connection"]) (kept ["connection", "retry"])
  logging := s.logging.restrict (kept ["logging"])

theorem Settings.restrict_all (s : Settings) : s.restrict (fun _ _ => true) = s := rfl

namespace Document

open Toml (Entry Scalar)

/-! ## Values -/

theorem ofName?_name (k : FramingKind) : FramingKind.ofName? k.name = some k := by
  cases k <;> decide

theorem levelOf?_name (l : LogLevel) : levelOf? l.name = some l := by
  cases l <;> decide

theorem millisWord_eq {s : Span} (h : s.InMillis) : millisWord s = s.millis := by
  obtain ⟨n, hn, rfl⟩ := h
  rw [millisWord, Span.millis_ofMillis, Nat.mod_eq_of_lt hn]

theorem readNatBelow_natCast {bound n : Nat} (h : n < bound) :
    readNatBelow bound (.integer n) = some n := by
  rw [readNatBelow, if_pos ⟨Int.natCast_nonneg n, by omega⟩, Int.toNat_natCast]

theorem readSpan_millisWord {s : Span} (h : s.InMillis) :
    readSpan (.integer (millisWord s)) = some s := by
  have hword : millisWord s = s.millis := millisWord_eq h
  obtain ⟨n, hn, rfl⟩ := h
  rw [Span.millis_ofMillis] at hword
  rw [hword, readSpan, readWord64, readNatBelow_natCast hn, Option.map_some]

/-! ## Entries that are given -/

/-- A section gives an entry if it is kept, and says nothing about its key otherwise. -/
def Given (look : Lookup) (kept : String → Bool) (e : Entry) : Prop :=
  look e.key = if kept e.key then some e.value.value else none

namespace Given

variable {look : Lookup} {kept : String → Bool} {key : String}

theorem setting {α : Type} {v : Scalar} (h : Given look kept ⟨key, v⟩) (read : Toml → Option α)
    {x : α} (hread : read v.value = some x) (default : α) :
    setting look key read default = some (if kept key then x else default) := by
  rw [Document.setting, h]
  by_cases hkept : kept key = true
  · simp [hkept, hread]
  · simp [hkept]

theorem text {s : String} (h : Given look kept (textEntry key s)) (default : String) :
    Document.setting look key readText default = some (if kept key then s else default) :=
  h.setting readText rfl default

theorem bool {b : Bool} (h : Given look kept (boolEntry key b)) (default : Bool) :
    Document.setting look key readBool default = some (if kept key then b else default) :=
  h.setting readBool rfl default

theorem real {x : Binary64} (h : Given look kept (realEntry key x)) (default : Binary64) :
    Document.setting look key readReal default = some (if kept key then x else default) :=
  h.setting readReal rfl default

theorem word64 {n : Nat} (h : Given look kept (natEntry key n)) (hn : n < UInt64.size)
    (default : Nat) :
    Document.setting look key readWord64 default = some (if kept key then n else default) :=
  h.setting readWord64 (readNatBelow_natCast hn) default

theorem word32 {n : Nat} (h : Given look kept (natEntry key n)) (hn : n < UInt32.size)
    (default : Nat) :
    Document.setting look key readWord32 default = some (if kept key then n else default) :=
  h.setting readWord32 (readNatBelow_natCast hn) default

theorem span {s : Span} (h : Given look kept (spanEntry key s)) (hs : s.InMillis)
    (default : Span) :
    Document.setting look key readSpan default = some (if kept key then s else default) :=
  h.setting readSpan (readSpan_millisWord hs) default

theorem framing {k : FramingKind} (h : Given look kept (textEntry key k.name))
    (default : FramingKind) :
    Document.setting look key readFraming default = some (if kept key then k else default) :=
  h.setting readFraming (ofName?_name k) default

theorem level {l : LogLevel} (h : Given look kept (textEntry key l.name)) (default : LogLevel) :
    Document.setting look key readLevel default = some (if kept key then l else default) :=
  h.setting readLevel (levelOf?_name l) default

end Given

/-! ## Sections

What is read of a section, however it is looked up, when it gives the entries that are kept. -/

section

variable {v : Toml} {look : Lookup} {kept : String → Bool}

theorem readRetry_of_given (hlook : lookup? retryKeys v = some look) {p : RetryPolicy}
    (h : p.InRange) (hgiven : ∀ e ∈ retryEntries p, Given look kept e) :
    readRetry v = some (p.restrict kept) := by
  simp only [retryEntries, List.forall_mem_cons] at hgiven
  obtain ⟨hmax, hbase, hlongest, hjitter, -⟩ := hgiven
  simp only [readRetry, hlook, Option.bind_eq_bind, Option.bind_some, hmax.word32 h.maxRetries,
    hbase.span h.baseDelay, hlongest.span h.maxDelay, hjitter.real]
  rfl

/-- A section that is always given. -/
theorem setting_of_read {α : Type} {key : String} {w : Toml} {read : Toml → Option α} {x : α}
    (hlook : look key = some w) (hread : read w = some x) (default : α) :
    setting look key read default = some x := by
  rw [setting, hlook]
  exact hread

theorem readServer_of_given (hlook : lookup? serverKeys v = some look) {s : ServerSettings}
    (h : s.InRange) (hgiven : ∀ e ∈ serverEntries s, Given look kept e) {w : Toml}
    (hretry : look "retry" = some w) {keptRetry : String → Bool}
    (hw : readRetry w = some (s.retry.restrict keptRetry)) :
    readServer v = some (s.restrict kept keptRetry) := by
  simp only [serverEntries, List.forall_mem_cons] at hgiven
  obtain ⟨haddress, hmax, hbackoff, -⟩ := hgiven
  simp only [readServer, hlook, Option.bind_eq_bind, Option.bind_some, haddress.text,
    hmax.word64 h.maxConnections, hbackoff.span h.refuseBackoff, setting_of_read hretry hw]
  rfl

theorem readClient_of_given (hlook : lookup? clientKeys v = some look) {s : ClientSettings}
    (h : s.InRange) (hgiven : ∀ e ∈ clientEntries s, Given look kept e) :
    readClient v = some (s.restrict kept) := by
  simp only [clientEntries, List.forall_mem_cons] at hgiven
  obtain ⟨haddress, htimeout, hmax, hdelay, -⟩ := hgiven
  simp only [readClient, hlook, Option.bind_eq_bind, Option.bind_some, haddress.text,
    htimeout.span h.connectTimeout, hmax.word32 h.maxRetries, hdelay.span h.retryDelay]
  rfl

theorem readConnection_of_given (hlook : lookup? connectionKeys v = some look)
    {s : ConnectionSettings} (h : s.InRange) (hgiven : ∀ e ∈ connectionEntries s, Given look kept e)
    {w : Toml} (hretry : look "retry" = some w) {keptRetry : String → Bool}
    (hw : readRetry w = some (s.retry.restrict keptRetry)) :
    readConnection v = some (s.restrict kept keptRetry) := by
  simp only [connectionEntries, List.forall_mem_cons] at hgiven
  obtain ⟨hframing, hmessage, hbuffer, hqueue, hidle, hcheck, hwrite, hrate, hburst, -⟩ := hgiven
  simp only [readConnection, hlook, Option.bind_eq_bind, Option.bind_some, hframing.framing,
    hmessage.word64 h.maxMessageSize, hbuffer.word64 h.readBufferSize,
    hqueue.word64 h.sendQueueSize, hidle.span h.idleTimeout, hcheck.span h.idleCheckInterval,
    hwrite.span h.writeTimeout, hrate.real, hburst.word32 h.rateBurst, setting_of_read hretry hw]
  rfl

/-- The path of the log file has an entry only if there is one. -/
theorem setting_filePath {s : LoggingSettings} (hgiven : ∀ e ∈ loggingEntries s, Given look kept e)
    (hnone : s.filePath = none → look "log_file_path" = none) :
    setting look "log_file_path" (fun v => (readText v).map some) none =
      some (if kept "log_file_path" then s.filePath else none) := by
  cases hpath : s.filePath with
  | none =>
    rw [setting, hnone hpath]
    simp
  | some path =>
    have hentry : Given look kept (textEntry "log_file_path" path) :=
      hgiven _ (by simp [loggingEntries, hpath])
    exact hentry.setting (fun v => (readText v).map some) rfl none

theorem readLogging_of_given (hlook : lookup? loggingKeys v = some look) {s : LoggingSettings}
    (hgiven : ∀ e ∈ loggingEntries s, Given look kept e)
    (hnone : s.filePath = none → look "log_file_path" = none) :
    readLogging v = some (s.restrict kept) := by
  have hpath := setting_filePath hgiven hnone
  simp only [loggingEntries, List.forall_mem_append, List.forall_mem_cons] at hgiven
  obtain ⟨⟨⟨hname, hlevel, hconsole, hfile, -⟩, -⟩, hjson, -⟩ := hgiven
  have hdefault : LoggingSettings.standard.filePath = none := rfl
  simp only [readLogging, hlook, Option.bind_eq_bind, Option.bind_some, hname.text, hlevel.level,
    hconsole.bool, hfile.bool, hdefault, hpath, hjson.bool]
  rfl

end

end Document
end FrameEngine
