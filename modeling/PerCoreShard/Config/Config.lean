import Mathlib.Data.List.Basic
import Mathlib.Data.UInt
import PerCoreShard.Net.Http.Types

/-! The configuration: what the command line asks for, what is read from the file it names, and
how the process ends when either is wrong. JSON is read by a library, which appears here as the
functions that are called. -/
namespace PerCoreShard

structure UpstreamEndpointConfig where
  host : Bytes := []
  port : UInt16 := 0
  deriving DecidableEq, Repr

structure Config where
  listenPort : UInt16 := 8080
  shardCount : UInt64
  bufferSize : UInt64 := 64 * 1024
  upstreams : List UpstreamEndpointConfig := []
  dnsRefreshIntervalSeconds : UInt32 := 30
  connectionPoolMaxIdlePerEndpoint : UInt64 := 8
  connectTimeoutSeconds : UInt32 := 5
  bufferPoolMaxFree : UInt64 := 256
  metricsReportIntervalSeconds : UInt32 := 10
  bodyBufferHighWatermarkBytes : UInt64 := 1 * 1024 * 1024
  deriving DecidableEq, Repr

/-- `std::exit`, with what was written before. -/
structure Exit where
  code : ℕ
  out : Bytes := []
  err : Bytes := []
  deriving DecidableEq, Repr

/-- What is used of `nlohmann::json`. An error carries what the exception says. -/
structure Nlohmann where
  Json : Type
  parse : Bytes → Except Bytes Json
  contains : Json → Bytes → Bool
  /-- `at`. -/
  member : Json → Bytes → Except Bytes Json
  isArray : Json → Bool
  /-- What a loop over the value runs through. -/
  items : Json → List Json
  getUnsignedShort : Json → Except Bytes UInt16
  getUnsigned : Json → Except Bytes UInt32
  getSize : Json → Except Bytes UInt64
  getString : Json → Except Bytes Bytes

namespace Config

def usage : Bytes := ascii "Usage: perCoreShard --config <path/to/config.json>\n"

def isHelp (arg : Bytes) : Bool := arg == ascii "--help" || arg == ascii "-h"

/-- The loop over the arguments, of which the program's own name is not one. -/
def parseArgs (configPath : Bytes) : List Bytes → Except Exit Bytes
  | [] => .ok configPath
  | arg::rest =>
    if arg = ascii "--config" then
      match rest with
      | [] => .error { code := 1, err := ascii "Missing value for --config\n" }
      | value::rest => parseArgs value rest
    else if isHelp arg then .error { code := 0, out := usage }
    else .error { code := 1, err := ascii "Unknown argument: " ++ arg ++ ascii "\n" }

/-- The path that `from_args` hands to `from_file`. -/
def pathOfArgs (args : List Bytes) : Except Exit Bytes := do
  let configPath ← parseArgs [] args
  if configPath.isEmpty then .error { code := 1, err := usage } else .ok configPath

section
variable (api : Nlohmann) (path : Bytes)

/-- An exception that is thrown while the fields are read. -/
def guarded {α : Type} (r : Except Bytes α) : Except Exit α :=
  r.mapError fun what =>
    { code := 1
      err := ascii "config: malformed field in " ++ path ++ ascii ": " ++ what ++ ascii "\n" }

/-- A field that may be missing. -/
def field {α : Type} (j : api.Json) (name : String) (get : api.Json → Except Bytes α)
    (default : α) : Except Exit α :=
  if api.contains j (ascii name) then guarded path (api.member j (ascii name) >>= get)
  else .ok default

def readUpstream (item : api.Json) : Except Bytes UpstreamEndpointConfig := do
  let host ← api.member item (ascii "host") >>= api.getString
  let port ← api.member item (ascii "port") >>= api.getUnsignedShort
  return { host := host, port := port }

def readUpstreams (j : api.Json) : Except Exit (List UpstreamEndpointConfig) := do
  let empty : Exit :=
    { code := 1, err := ascii "config: \"upstreams\" must be a non-empty array\n" }
  if api.contains j (ascii "upstreams") then
    let upstreams ← guarded path (api.member j (ascii "upstreams"))
    if api.isArray upstreams && !(api.items upstreams).isEmpty then
      guarded path ((api.items upstreams).mapM (readUpstream api))
    else .error empty
  else .error empty

/-- The fields in the order in which they are read. -/
def readFields (config : Config) (j : api.Json) : Except Exit Config := do
  let listenPort ← field api path j "listen_port" api.getUnsignedShort config.listenPort
  let shardCount ← field api path j "shard_count" api.getSize config.shardCount
  let bufferSize ← field api path j "buffer_size" api.getSize config.bufferSize
  let dnsRefreshIntervalSeconds ← field api path j "dns_refresh_interval_seconds" api.getUnsigned
    config.dnsRefreshIntervalSeconds
  let connectionPoolMaxIdlePerEndpoint ← field api path j "connection_pool_max_idle_per_endpoint"
    api.getSize config.connectionPoolMaxIdlePerEndpoint
  let connectTimeoutSeconds ← field api path j "connect_timeout_seconds" api.getUnsigned
    config.connectTimeoutSeconds
  let bufferPoolMaxFree ← field api path j "buffer_pool_max_free" api.getSize
    config.bufferPoolMaxFree
  let metricsReportIntervalSeconds ← field api path j "metrics_report_interval_seconds"
    api.getUnsigned config.metricsReportIntervalSeconds
  let bodyBufferHighWatermarkBytes ← field api path j "body_buffer_high_watermark_bytes"
    api.getSize config.bodyBufferHighWatermarkBytes
  let upstreams ← readUpstreams api path j
  return {
    listenPort := listenPort
    shardCount := shardCount
    bufferSize := bufferSize
    upstreams := config.upstreams ++ upstreams
    dnsRefreshIntervalSeconds := dnsRefreshIntervalSeconds
    connectionPoolMaxIdlePerEndpoint := connectionPoolMaxIdlePerEndpoint
    connectTimeoutSeconds := connectTimeoutSeconds
    bufferPoolMaxFree := bufferPoolMaxFree
    metricsReportIntervalSeconds := metricsReportIntervalSeconds
    bodyBufferHighWatermarkBytes := bodyBufferHighWatermarkBytes }

/-- `if (config.shard_count == 0)`. -/
def atLeastOneShard (config : Config) : Config :=
  if config.shardCount = 0 then { config with shardCount := 1 } else config

end

/-- What the process finds around it: `hardware_concurrency`, and what the files say. -/
structure Machine where
  hardwareConcurrency : UInt32
  read : Bytes → Option Bytes

def fromFile (api : Nlohmann) (machine : Machine) (path : Bytes) : Except Exit Config :=
  match machine.read path with
  | none => .error { code := 1, err := ascii "Cannot open config file: " ++ path ++ ascii "\n" }
  | some text =>
    match api.parse text with
    | .error what =>
      .error { code := 1
               err := ascii "Invalid JSON in " ++ path ++ ascii ": " ++ what ++ ascii "\n" }
    | .ok j =>
      (readFields api path { shardCount := machine.hardwareConcurrency.toUInt64 } j).map
        atLeastOneShard

def fromArgs (api : Nlohmann) (machine : Machine) (args : List Bytes) : Except Exit Config :=
  pathOfArgs args >>= fromFile api machine

/-- Arguments that name these files, one after the other. -/
def configArgs (paths : List Bytes) : List Bytes :=
  paths.flatMap fun path => [ascii "--config",path]

theorem configArgs_cons (path : Bytes) (paths : List Bytes) :
    configArgs (path::paths) = ascii "--config"::path::configArgs paths := rfl

theorem not_isHelp_config : isHelp (ascii "--config") = false := by decide

/-- The last of the files named is the one that counts. -/
theorem parseArgs_iff (args : List Bytes) (initial path : Bytes) :
    parseArgs initial args = .ok path ↔
      ∃ paths, args = configArgs paths ∧ paths.getLast?.getD initial = path := by
  fun_induction parseArgs initial args with
  | case1 initial =>
    constructor
    · intro h
      exact ⟨[],rfl,Except.ok.inj h⟩
    · rintro ⟨_ | ⟨path',paths⟩,hargs,rfl⟩
      · rfl
      · cases hargs
  | case2 initial =>
    refine ⟨fun h => (by cases h),?_⟩
    rintro ⟨_ | ⟨path',paths⟩,hargs,-⟩ <;> cases hargs
  | case3 initial value rest ih =>
    rw [ih]
    constructor
    · rintro ⟨paths,rfl,rfl⟩
      exact ⟨value::paths,rfl,by rw [List.getLast?_cons]; rfl⟩
    · rintro ⟨_ | ⟨path',paths⟩,hargs,rfl⟩
      · cases hargs
      · rw [configArgs_cons,List.cons.injEq,List.cons.injEq] at hargs
        obtain ⟨-,rfl,rfl⟩ := hargs
        exact ⟨paths,rfl,by rw [List.getLast?_cons]; rfl⟩
  | case4 initial arg rest hne hhelp =>
    refine ⟨fun h => (by cases h),?_⟩
    rintro ⟨_ | ⟨path',paths⟩,hargs,-⟩
    · cases hargs
    · rw [configArgs_cons,List.cons.injEq] at hargs
      exact absurd hargs.1 hne
  | case5 initial arg rest hne hhelp =>
    refine ⟨fun h => (by cases h),?_⟩
    rintro ⟨_ | ⟨path',paths⟩,hargs,-⟩
    · cases hargs
    · rw [configArgs_cons,List.cons.injEq] at hargs
      exact absurd hargs.1 hne

/-- Help is what is asked for when no argument before it is wrong. -/
theorem help_iff (args : List Bytes) (initial : Bytes) :
    (∃ e, parseArgs initial args = .error e ∧ e.code = 0) ↔
      ∃ paths arg rest, args = configArgs paths ++ arg::rest ∧ isHelp arg = true := by
  fun_induction parseArgs initial args with
  | case1 initial =>
    refine ⟨fun ⟨e,he,_⟩ => (by cases he),?_⟩
    rintro ⟨paths,arg,rest,hargs,-⟩
    simp at hargs
  | case2 initial =>
    refine ⟨fun ⟨e,he,hcode⟩ => (by cases he; cases hcode),?_⟩
    rintro ⟨_ | ⟨path,paths⟩,arg,rest,hargs,hhelp⟩ <;> cases hargs
    rw [not_isHelp_config] at hhelp
    cases hhelp
  | case3 initial value rest ih =>
    rw [ih]
    constructor
    · rintro ⟨paths,arg,rest,rfl,hhelp⟩
      exact ⟨value::paths,arg,rest,rfl,hhelp⟩
    · rintro ⟨_ | ⟨path,paths⟩,arg,rest,hargs,hhelp⟩
      · cases hargs
        rw [not_isHelp_config] at hhelp
        cases hhelp
      · rw [configArgs_cons,List.cons_append,List.cons_append,List.cons.injEq,
          List.cons.injEq] at hargs
        exact ⟨paths,arg,rest,hargs.2.2,hhelp⟩
  | case4 initial arg rest hne hhelp => exact ⟨fun _ => ⟨[],arg,rest,rfl,hhelp⟩,fun _ => ⟨_,rfl,rfl⟩⟩
  | case5 initial arg rest hne hhelp =>
    refine ⟨fun ⟨e,he,hcode⟩ => (by cases he; cases hcode),?_⟩
    rintro ⟨_ | ⟨path,paths⟩,arg',rest',hargs,hhelp'⟩
    · cases hargs
      exact absurd hhelp' hhelp
    · rw [configArgs_cons,List.cons_append,List.cons.injEq] at hargs
      exact absurd hargs.1 hne

/-- What is said of arguments that are not understood. -/
inductive ArgComplaint : List Bytes → Bytes → Prop
  | missing (paths : List Bytes) :
    ArgComplaint (configArgs paths ++ [ascii "--config"]) (ascii "Missing value for --config\n")
  | unknown (paths : List Bytes) (arg : Bytes) (rest : List Bytes) (hne : arg ≠ ascii "--config")
    (hhelp : isHelp arg = false) : ArgComplaint (configArgs paths ++ arg::rest)
      (ascii "Unknown argument: " ++ arg ++ ascii "\n")

theorem ArgComplaint.cons {args : List Bytes} {err : Bytes} (h : ArgComplaint args err)
    (value : Bytes) : ArgComplaint (ascii "--config"::value::args) err := by
  cases h with
  | missing paths => exact .missing (value::paths)
  | unknown paths arg rest hne hhelp => exact .unknown (value::paths) arg rest hne hhelp

/-- The process ends with code 1 and says this. -/
def Complains (e : Exit) (said : Bytes → Prop) : Prop := e.code = 1 ∧ e.out = [] ∧ said e.err

/-- Help was asked for, and given. -/
def Helps (e : Exit) : Prop := e.code = 0 ∧ e.out = usage ∧ e.err = []

theorem exit_of_parseArgs {args : List Bytes} {initial : Bytes} {e : Exit}
    (h : parseArgs initial args = .error e) : Helps e ∨ Complains e (ArgComplaint args) := by
  fun_induction parseArgs initial args with
  | case1 => cases h
  | case2 =>
    cases h
    exact .inr ⟨rfl,rfl,.missing []⟩
  | case3 initial value rest ih =>
    exact (ih h).imp_right fun ⟨hcode,hout,herr⟩ => ⟨hcode,hout,herr.cons value⟩
  | case4 =>
    cases h
    exact .inl ⟨rfl,rfl,rfl⟩
  | case5 initial arg rest hne hhelp =>
    cases h
    exact .inr ⟨rfl,rfl,.unknown [] arg rest hne (by simpa using hhelp)⟩

theorem bind_ok {ε α β : Type} {x : Except ε α} {f : α → Except ε β} {b : β}
    (h : x >>= f = .ok b) : ∃ a, x = .ok a ∧ f a = .ok b := by
  cases x with
  | error e => cases h
  | ok a => exact ⟨a,rfl,h⟩

theorem bind_error {ε α β : Type} {x : Except ε α} {f : α → Except ε β} {e : ε}
    (h : x >>= f = .error e) : x = .error e ∨ ∃ a, x = .ok a ∧ f a = .error e := by
  cases x with
  | error e' =>
    cases h
    exact .inl rfl
  | ok a => exact .inr ⟨a,rfl,h⟩

theorem mapM_error {ε α β : Type} {f : α → Except ε β} {xs : List α} {e : ε}
    (h : xs.mapM f = .error e) : ∃ x ∈ xs, f x = .error e := by
  induction xs with
  | nil => cases h
  | cons x xs ih =>
    rw [List.mapM_cons] at h
    obtain hx | ⟨y,-,h⟩ := bind_error h
    · exact ⟨x,List.mem_cons_self ..,hx⟩
    · obtain hxs | ⟨ys,-,h⟩ := bind_error h
      · obtain ⟨x',hx',hf⟩ := ih hxs
        exact ⟨x',List.mem_cons_of_mem _ hx',hf⟩
      · cases h

section
variable {api : Nlohmann} {machine : Machine} {path : Bytes}

/-- What an exception of the library says. -/
inductive Thrown (api : Nlohmann) : Bytes → Prop
  | member (j : api.Json) (name what : Bytes) (h : api.member j name = .error what) :
    Thrown api what
  | unsignedShort (j : api.Json) (what : Bytes) (h : api.getUnsignedShort j = .error what) :
    Thrown api what
  | unsigned (j : api.Json) (what : Bytes) (h : api.getUnsigned j = .error what) : Thrown api what
  | size (j : api.Json) (what : Bytes) (h : api.getSize j = .error what) : Thrown api what
  | string (j : api.Json) (what : Bytes) (h : api.getString j = .error what) : Thrown api what

/-- What is said of a file that is JSON. -/
inductive FieldComplaint (api : Nlohmann) (path : Bytes) (j : api.Json) : Bytes → Prop
  | malformed (what : Bytes) (h : Thrown api what) : FieldComplaint api path j
    (ascii "config: malformed field in " ++ path ++ ascii ": " ++ what ++ ascii "\n")
  | upstreams (h : api.contains j (ascii "upstreams") = true → ∀ upstreams,
      api.member j (ascii "upstreams") = .ok upstreams →
        (api.isArray upstreams && !(api.items upstreams).isEmpty) = false) :
    FieldComplaint api path j (ascii "config: \"upstreams\" must be a non-empty array\n")

/-- What is said when the program cannot be started. -/
inductive Complaint (api : Nlohmann) (machine : Machine) (args : List Bytes) : Bytes → Prop
  | args {err : Bytes} (h : ArgComplaint args err) : Complaint api machine args err
  | noFile (paths : List Bytes) (h : args = configArgs paths)
    (hlast : paths.getLast?.getD [] = []) : Complaint api machine args usage
  | unread (path : Bytes) (h : pathOfArgs args = .ok path) (hread : machine.read path = none) :
    Complaint api machine args (ascii "Cannot open config file: " ++ path ++ ascii "\n")
  | notJson (path text what : Bytes) (h : pathOfArgs args = .ok path)
    (hread : machine.read path = some text) (hparse : api.parse text = .error what) :
    Complaint api machine args
      (ascii "Invalid JSON in " ++ path ++ ascii ": " ++ what ++ ascii "\n")
  | field (path text : Bytes) (j : api.Json) {err : Bytes} (h : pathOfArgs args = .ok path)
    (hread : machine.read path = some text) (hparse : api.parse text = .ok j)
    (hfield : FieldComplaint api path j err) : Complaint api machine args err

/-- Every failure says what is wrong with the fields. -/
def Strict {α : Type} (path : Bytes) (j : api.Json) (r : Except Exit α) : Prop :=
  ∀ e, r = .error e → Complains e (FieldComplaint api path j)

section
variable {j : api.Json}

theorem Strict.bind {α β : Type} {r : Except Exit α} {f : α → Except Exit β} (h : Strict path j r)
    (hf : ∀ a, r = .ok a → Strict path j (f a)) : Strict path j (r >>= f) := by
  intro e he
  obtain he | ⟨a,ha,he⟩ := bind_error he
  · exact h e he
  · exact hf a ha e he

theorem strict_ok {α : Type} (a : α) : Strict path j (.ok a) := fun e he => by cases he

theorem strict_guarded {α : Type} {r : Except Bytes α} (h : ∀ what, r = .error what → Thrown api what) :
    Strict path j (guarded path r) := by
  intro e he
  cases r with
  | error what =>
    cases he
    exact ⟨rfl,rfl,.malformed what (h what rfl)⟩
  | ok a => cases he

theorem strict_field {α : Type} {name : String} {get : api.Json → Except Bytes α} {default : α}
    (hget : ∀ j what, get j = .error what → Thrown api what) :
    Strict path j (field api path j name get default) := by
  unfold field
  split
  · refine strict_guarded fun what hwhat => ?_
    obtain hmember | ⟨value,-,hvalue⟩ := bind_error hwhat
    · exact .member j _ what hmember
    · exact hget value what hvalue
  · exact strict_ok _

theorem thrown_readUpstream {item : api.Json} {what : Bytes}
    (h : readUpstream api item = .error what) : Thrown api what := by
  obtain h | ⟨host,-,h⟩ := bind_error h
  · obtain h | ⟨value,-,h⟩ := bind_error h
    · exact .member _ _ _ h
    · exact .string _ _ h
  · obtain h | ⟨port,-,h⟩ := bind_error h
    · obtain h | ⟨value,-,h⟩ := bind_error h
      · exact .member _ _ _ h
      · exact .unsignedShort _ _ h
    · cases h

theorem strict_readUpstreams : Strict path j (readUpstreams api path j) := by
  unfold readUpstreams
  dsimp only
  split
  next hcontains =>
    refine (strict_guarded fun what => .member j _ what).bind fun upstreams hok => ?_
    have hmember : api.member j (ascii "upstreams") = .ok upstreams := by
      cases hm : api.member j (ascii "upstreams") with
      | error what => rw [hm] at hok; cases hok
      | ok value => rw [hm] at hok; cases hok; rfl
    split
    · refine strict_guarded fun what hwhat => ?_
      obtain ⟨item,-,hitem⟩ := mapM_error hwhat
      exact thrown_readUpstream hitem
    next hempty =>
      rintro e he
      cases he
      refine ⟨rfl,rfl,.upstreams fun _ other hother => ?_⟩
      rw [Except.ok.inj (hother.symm.trans hmember)]
      simpa using hempty
  next hcontains =>
    rintro e he
    cases he
    exact ⟨rfl,rfl,.upstreams fun hc => absurd hc hcontains⟩

theorem strict_readFields (config : Config) : Strict path j (readFields api path config j) := by
  have hsize : ∀ j what, api.getSize j = .error what → Thrown api what := .size
  have hunsigned : ∀ j what, api.getUnsigned j = .error what → Thrown api what := .unsigned
  unfold readFields
  refine (strict_field .unsignedShort).bind fun _ _ => ?_
  refine (strict_field hsize).bind fun _ _ => (strict_field hsize).bind fun _ _ => ?_
  refine (strict_field hunsigned).bind fun _ _ => (strict_field hsize).bind fun _ _ => ?_
  refine (strict_field hunsigned).bind fun _ _ => (strict_field hsize).bind fun _ _ => ?_
  refine (strict_field hunsigned).bind fun _ _ => (strict_field hsize).bind fun _ _ => ?_
  exact strict_readUpstreams.bind fun _ _ => strict_ok _

end

/-- A file that is named but of no use. -/
theorem complains_fromFile {args : List Bytes} (hpath : pathOfArgs args = .ok path) {e : Exit}
    (he : fromFile api machine path = .error e) : Complains e (Complaint api machine args) := by
  unfold fromFile at he
  split at he
  next hread =>
    cases he
    exact ⟨rfl,rfl,.unread path hpath hread⟩
  next text hread =>
    split at he
    next what hparse =>
      cases he
      exact ⟨rfl,rfl,.notJson path text what hpath hread hparse⟩
    next j hparse =>
      have hfields : Strict path j (readFields api path
          { shardCount := machine.hardwareConcurrency.toUInt64 } j) := strict_readFields _
      cases hread' : readFields api path { shardCount := machine.hardwareConcurrency.toUInt64 } j with
      | error e' =>
        rw [hread'] at he hfields
        cases he
        obtain ⟨hcode,hout,herr⟩ := hfields _ rfl
        exact ⟨hcode,hout,.field path text j hpath hread hparse herr⟩
      | ok config =>
        rw [hread'] at he
        cases he

theorem pathOfArgs_iff (args : List Bytes) (path : Bytes) : pathOfArgs args = .ok path ↔
    path ≠ [] ∧ ∃ paths, args = configArgs (paths ++ [path]) := by
  constructor
  · intro h
    obtain ⟨path',hparse,h⟩ := bind_ok h
    split at h
    · cases h
    next hne =>
      cases h
      obtain ⟨paths,rfl,hlast⟩ := (parseArgs_iff args [] path).mp hparse
      have hpath : path ≠ [] := fun heq => hne (by simp [heq])
      refine ⟨hpath,paths.dropLast,?_⟩
      cases hget : paths.getLast? with
      | none =>
        rw [hget] at hlast
        exact absurd hlast.symm hpath
      | some last =>
        rw [hget] at hlast
        obtain rfl : last = path := hlast
        rw [List.dropLast_append_getLast? _ hget]
  · rintro ⟨hpath,paths,rfl⟩
    have hparse : parseArgs [] (configArgs (paths ++ [path])) = .ok path :=
      (parseArgs_iff _ _ _).mpr ⟨paths ++ [path],rfl,by simp⟩
    rw [pathOfArgs,hparse]
    simp [bind,Except.bind,hpath]

end

/-- How the program can be started. -/
structure Asked (api : Nlohmann) (machine : Machine) (args : List Bytes) : Prop where
  /-- A configuration is what the file says that was named last, and nothing else was said. -/
  loaded : ∀ config, fromArgs api machine args = .ok config ↔ ∃ paths path,
    args = configArgs (paths ++ [path]) ∧ path ≠ [] ∧ fromFile api machine path = .ok config
  /-- Help is asked for after any number of files. -/
  helped : (∃ e, fromArgs api machine args = .error e ∧ Helps e) ↔ ∃ paths arg rest,
    args = configArgs paths ++ arg::rest ∧ isHelp arg = true
  failed : ∀ e, fromArgs api machine args = .error e →
    Helps e ∨ Complains e (Complaint api machine args)

/-- What holds of every configuration that is accepted. -/
structure WellFormed (config : Config) : Prop where
  shards : config.shardCount ≠ 0
  upstreams : config.upstreams ≠ []

theorem length_mapM {ε α β : Type} (f : α → Except ε β) (xs : List α) {ys : List β}
    (h : xs.mapM f = .ok ys) : ys.length = xs.length := by
  induction xs generalizing ys with
  | nil =>
    cases h
    rfl
  | cons x xs ih =>
    rw [List.mapM_cons] at h
    obtain ⟨y,-,h⟩ := bind_ok h
    obtain ⟨rest,hrest,h⟩ := bind_ok h
    cases h
    rw [List.length_cons,List.length_cons,ih hrest]

theorem readUpstreams_ne_nil {api : Nlohmann} {path : Bytes} {j : api.Json}
    {upstreams : List UpstreamEndpointConfig} (h : readUpstreams api path j = .ok upstreams) :
    upstreams ≠ [] := by
  unfold readUpstreams at h
  dsimp only at h
  split at h
  · obtain ⟨items,-,h⟩ := bind_ok h
    split at h
    next hitems =>
      cases hread : (api.items items).mapM (readUpstream api) with
      | error what =>
        rw [hread] at h
        cases h
      | ok read =>
        rw [hread] at h
        cases h
        have hlength := length_mapM _ _ hread
        rintro rfl
        simp [List.eq_nil_of_length_eq_zero hlength.symm] at hitems
    next => cases h
  · cases h

theorem upstreams_readFields {api : Nlohmann} {path : Bytes} {config config' : Config}
    {j : api.Json} (h : readFields api path config j = .ok config') : config'.upstreams ≠ [] := by
  unfold readFields at h
  iterate 9 obtain ⟨_,-,h⟩ := bind_ok h
  obtain ⟨upstreams,hread,h⟩ := bind_ok h
  cases h
  exact List.append_ne_nil_of_right_ne_nil _ (readUpstreams_ne_nil hread)

theorem wellFormed_fromFile {api : Nlohmann} {machine : Machine} {path : Bytes} {config : Config}
    (h : fromFile api machine path = .ok config) : config.WellFormed := by
  unfold fromFile at h
  split at h
  · cases h
  · split at h
    · cases h
    next j _ =>
      cases hread : readFields api path { shardCount := machine.hardwareConcurrency.toUInt64 } j with
      | error e =>
        rw [hread] at h
        cases h
      | ok read =>
        rw [hread] at h
        obtain rfl : atLeastOneShard read = config := Except.ok.inj h
        have hupstreams := upstreams_readFields hread
        unfold atLeastOneShard
        split
        · exact ⟨(by decide : (1 : UInt64) ≠ 0),hupstreams⟩
        next hne => exact ⟨hne,hupstreams⟩

theorem wellFormed_fromArgs {api : Nlohmann} {machine : Machine} {args : List Bytes}
    {config : Config} (h : fromArgs api machine args = .ok config) : config.WellFormed := by
  obtain ⟨path,-,hfile⟩ := bind_ok h
  exact wellFormed_fromFile hfile

end Config
end PerCoreShard
