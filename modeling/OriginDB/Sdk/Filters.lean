import OriginDB.Sdk.Invocation
import OriginDB.Websocket.FailClosed
/-!
# Filters and transforms of a module (`wasm_subscription.cpp:330-417`, `index.ts:786-899`)

The event is sent to a module as a text. A filter is given what the text says, but a reducer that serves as a transform is given
the text itself (`unwrapEvent` is applied for filters alone). A reducer that has the name of a filter hides it, and then no event
is ever let through: the status of a reducer is 0, and its result is not taken for a verdict.

Handlers that only look at their arguments are modelled (`PlainHandler`): with them a round of `ProcessSingleEvent` is a function
of the event (`delivery`), and leaves the tables as they are.
-/
namespace OriginDB.Sdk

open JsonDoc JsonGrammar ByteCodec JsonParser Wasm LinearMemory

/-- A registration, with a handler that calls no host function. -/
inductive PlainHandler where
  | reducer (name : Units) (fn : List JsonValue → Option JsonValue) (params : List Units)
  | filter (name : Units) (fn : JsonValue → Bool)
  | info (name version : Units)
  | table (name : Units)

namespace PlainHandler

def registration : PlainHandler → Registration
  | .reducer name fn params => .reducer name (fun args => pure (fn args)) params
  | .filter name fn => .filter name fun event => pure (fn event)
  | .info name version => .info name version
  | .table name => .table name

/-- The function of the reducer that has been registered last under a name. -/
def lastReducer (name : Units) : List PlainHandler → Option (List JsonValue → Option JsonValue)
  | [] => none
  | .reducer n fn _ :: rest => (lastReducer name rest).or (if n = name then some fn else none)
  | _ :: rest => lastReducer name rest

def lastFilter (name : Units) : List PlainHandler → Option (JsonValue → Bool)
  | [] => none
  | .filter n fn :: rest => (lastFilter name rest).or (if n = name then some fn else none)
  | _ :: rest => lastFilter name rest

/-- A filter lets an event through. A reducer of its name does not. -/
def includes (handlers : List PlainHandler) (name : Units) (event : JsonValue) : Bool :=
  match lastReducer name handlers, lastFilter name handlers with
  | none, some fn => fn event
  | _, _ => false

/-- What a transform makes of the text of an event; nothing is sent when there is none, or its result is too long. -/
def rewritten (rt : JsonValue.Runtime) (handlers : List PlainHandler) (name : Units) (data : Bytes) : Option WasmValue :=
  match lastReducer name handlers, lastFilter name handlers with
  | some fn, _ =>
    match fn [.string (Utf16.decode data)] with
    | none => some (.string data)
    | some result =>
      let payload := Utf16.encode (result.toString rt)
      if maxResult < payload.length then none else some (.bytes payload)
  | none, some _ => some (.string data)
  | none, none => none

end PlainHandler

/-- What the subscription makes of an event that it is to send. -/
def payload (rt : JsonValue.Runtime) (loaded : Bytes → Option (List PlainHandler)) (data : Bytes) (q : WasmSubscriptionQuery) :
    Option WasmValue :=
  if q.transformFunction = [] then some (.string data)
  else (loaded q.moduleName).bind (PlainHandler.rewritten rt · (Utf16.decode q.transformFunction) data)

/-- What a subscription sends of an event, on the modules that are loaded. -/
def delivery (rt : JsonValue.Runtime) (callback : Bool) (loaded : Bytes → Option (List PlainHandler)) (ev : ChangefeedEvent)
    (event : JsonValue) (data : Bytes) (q : WasmSubscriptionQuery) : Option WasmValue :=
  if (q.tables = [] ∨ q.tables.contains ev.table) ∧ (callback ∧ q.clientId ≠ []) ∧
      (q.filterFunction = [] ∨ (loaded q.moduleName).any (PlainHandler.includes · (Utf16.decode q.filterFunction) event)) then
    payload rt loaded data q
  else none

/-- Whichever call it is, the host finds the module with its handlers, and can write the call into its memory. -/
structure Serves (host : EventHost) (rt : JsonValue.Runtime) (loaded : Bytes → Option (List PlainHandler)) (data text : Bytes)
    (name function : Bytes) : Prop where
  missing : loaded name = none → ∀ k, host.calls k name function data = none
  there : ∀ handlers, loaded name = some handlers → function.length < 2 ^ 31 ∧
    ∀ k, ∃ caps entry alloc m, Lifecycle.reaches entry = true ∧ Allocates alloc m function text ∧
      host.calls k name function data = some (ModuleCall.mk caps entry
        (callInvoke alloc (invokeExport rt (.ofRegistrations (handlers.map PlainHandler.registration))) m function text))

section
variable {rt : JsonValue.Runtime} {handlers : List PlainHandler} {name : Units} {data text : Bytes} {event : JsonValue}

/-! ## The handlers -/

theorem lastReducer_registration (name : Units) (handlers : List PlainHandler) :
    (Registry.lastReducer name (handlers.map PlainHandler.registration)).map ReducerEntry.fn =
      (PlainHandler.lastReducer name handlers).map fun fn => fun args => pure (fn args) := by
  induction handlers with
  | nil => rfl
  | cons h rest ih =>
    cases h with
    | reducer n fn params =>
      rw [List.map_cons, PlainHandler.registration, Registry.lastReducer, PlainHandler.lastReducer, Option.map_or, Option.map_or, ih]
      congr 1
      split <;> rfl
    | _ => exact ih

theorem lastFilter_registration (name : Units) (handlers : List PlainHandler) :
    Registry.lastFilter name (handlers.map PlainHandler.registration) =
      (PlainHandler.lastFilter name handlers).map fun fn => fun event => pure (fn event) := by
  induction handlers with
  | nil => rfl
  | cons h rest ih =>
    cases h with
    | filter n fn =>
      rw [List.map_cons, PlainHandler.registration, Registry.lastFilter, PlainHandler.lastFilter, Option.map_or, ih]
      congr 1
      split <;> rfl
    | _ => exact ih

/-- What a module does with a call that has one text as its argument. -/
def answer (rt : JsonValue.Runtime) (handlers : List PlainHandler) (name : Units) (event : JsonValue) (data : Bytes) : Guest :=
  match PlainHandler.lastReducer name handlers, PlainHandler.lastFilter name handlers with
  | some fn, _ => Registry.reply rt (fn [.string (Utf16.decode data)])
  | none, some fn => Registry.verdict (fn event)
  | none, none => .returns errNoHandler

theorem argsDoc_string (data : Bytes) : argsDoc [.string data] = .array [.string data] := rfl

theorem serializeArgs_string (J : JsonLib) (data : Bytes) : serializeArgs J [.string data] = J.dump (.array [.string data]) := rfl

theorem handle_eq_answer (hevent : tryParse (Utf16.decode data) = .ok event) :
    (Registry.ofRegistrations (handlers.map PlainHandler.registration)).handle rt name [.string (Utf16.decode data)] =
      answer rt handlers name event data := by
  obtain ⟨hreducer, hfilter, hnone⟩ := Registry.handle_ofRegistrations rt (handlers.map PlainHandler.registration) name
    [.string (Utf16.decode data)]
  have hfn := lastReducer_registration name handlers
  have hverdict := lastFilter_registration name handlers
  have hunwrap : Registry.unwrapEvent [.string (Utf16.decode data)] = event := by rw [Registry.unwrapEvent, hevent]
  rw [answer]
  cases hplain : PlainHandler.lastReducer name handlers with
  | some fn =>
    rw [hplain, Option.map_some, Option.map_eq_some_iff] at hfn
    obtain ⟨entry, hentry, heq⟩ := hfn
    rw [hreducer entry hentry, heq, Script.pure_andThen]
  | none =>
    rw [hplain, Option.map_none, Option.map_eq_none_iff] at hfn
    cases hplainFilter : PlainHandler.lastFilter name handlers with
    | some fn =>
      rw [hplainFilter, Option.map_some] at hverdict
      rw [hfilter hfn _ hverdict, Script.pure_andThen, hunwrap]
    | none =>
      rw [hplainFilter, Option.map_none] at hverdict
      exact hnone hfn hverdict

/-! ## A call -/

variable {env : Env} {maxLag : Nat} {io : Io} {caps : ModuleCapabilities} {moduleName function : Bytes} {entry : Wasm.Entry} {store : Store}

/-- A call that stages nothing and does not fail. -/
theorem execute_plain {call : HostCallContext} {guest : Guest} {status : Int32} (hreaches : Lifecycle.reaches entry = true)
    (hrun : guest.run env.toJsonLib caps store {} = (call, .returned status)) (hoverlay : call.overlay = ∅) (hevents : call.events = [])
    (hstatus : 0 ≤ status) : execute env maxLag io caps moduleName function entry guest store =
      .returned { success := true, value := some (call.result.elim (.inr status) .inl) } store := by
  rw [Lifecycle.reaches, Bool.and_eq_true, Bool.not_eq_true'] at hreaches
  obtain ⟨hrunning, hinstantiated⟩ := hreaches
  have hhandled : status ≠ errNoHandler := by
    rintro rfl
    exact absurd hstatus (by decide)
  cases hentry : entry.instantiation with
  | error e =>
    rw [hentry] at hinstantiated
    cases hinstantiated
  | ok u =>
    have hempty : call.overlay.isEmpty = true := by rw [hoverlay]; rfl
    simp only [execute, hrunning, hentry, hrun, Bool.false_eq_true, if_false, if_neg hhandled, if_neg (Int32.not_lt.2 hstatus),
      commitHostCall, hempty, if_true, hevents, List.map_nil, Store.publishAll, List.foldl_nil]

theorem execute_trapped (message : Bytes) (hreaches : Lifecycle.reaches entry = true) : ∃ result : WasmResult, result.success = false ∧
    execute env maxLag io caps moduleName function entry (.traps message) store = .returned result store := by
  rw [Lifecycle.reaches, Bool.and_eq_true, Bool.not_eq_true'] at hreaches
  obtain ⟨hrunning, hinstantiated⟩ := hreaches
  cases hentry : entry.instantiation with
  | error e =>
    rw [hentry] at hinstantiated
    cases hinstantiated
  | ok u =>
    simp only [execute, hrunning, hentry, Guest.run, Bool.false_eq_true, if_false]
    exact ⟨_, rfl, rfl⟩

open Processing in
variable (rt env maxLag io caps moduleName function store) in
/-- What the answer is taken for, by a subscription that calls a filter and by one that calls a transform. -/
theorem execute_answer (handlers : List PlainHandler) (name : Units) (event : JsonValue) (data : Bytes)
    (hreaches : Lifecycle.reaches entry = true) : ∃ result,
      execute env maxLag io caps moduleName function entry (answer rt handlers name event data) store = .returned result store ∧
      included result = PlainHandler.includes handlers name event ∧ transformed data result = PlainHandler.rewritten rt handlers name data := by
  rw [answer, PlainHandler.includes, PlainHandler.rewritten]
  cases PlainHandler.lastReducer name handlers with
  | some fn =>
    dsimp only
    cases fn [.string (Utf16.decode data)] with
    | none => exact ⟨_, execute_plain hreaches rfl rfl rfl (Int32.le_refl 0), rfl, rfl⟩
    | some result =>
      rw [Registry.reply]
      dsimp only [Script.andThen, setResult]
      split
      · obtain ⟨failed, hfailed, hexecute⟩ := execute_trapped (str "host_set_result: payload exceeds 16MiB cap") hreaches
        refine ⟨failed, hexecute, ?_, ?_⟩
        · rw [included, hfailed, Bool.false_and]
        · rw [transformed, hfailed, if_neg Bool.false_ne_true]
      · exact ⟨_, execute_plain hreaches rfl rfl rfl (Int32.le_refl 0), rfl, rfl⟩
  | none =>
    cases PlainHandler.lastFilter name handlers with
    | some fn =>
      dsimp only
      cases hverdict : fn event with
      | true => exact ⟨_, execute_plain hreaches rfl rfl rfl (by decide), rfl, rfl⟩
      | false => exact ⟨_, execute_plain hreaches rfl rfl rfl (by decide), rfl, rfl⟩
    | none =>
      refine ⟨_, execute_noHandler hreaches, ?_, ?_⟩
      · split <;> rfl
      · split <;> rfl

end

section
variable {host : EventHost} {rt : JsonValue.Runtime} {loaded : Bytes → Option (List PlainHandler)} {ev : ChangefeedEvent} {event : JsonValue}
  {data text function : Bytes} {q : WasmSubscriptionQuery} {s s' : Processing}

/-! ## A round -/

open Processing

/-- The module answers, or there is none; the tables are left alone either way. -/
theorem executeReducer_plain (hserves : Serves host rt loaded data text q.moduleName function)
    (hcompact : Compact (argsDoc [.string data]) (Utf16.decode text)) (hne : text ≠ []) (htext : text.length < 2 ^ 31)
    (hevent : tryParse (Utf16.decode data) = .ok event) : ∃ r,
      executeReducer host q data s function = (some r, { s with served := s.served + 1 }) ∧
      included r.result = (loaded q.moduleName).any (PlainHandler.includes · (Utf16.decode function) event) ∧
      transformed data r.result = (loaded q.moduleName).bind (PlainHandler.rewritten rt · (Utf16.decode function) data) := by
  cases hloaded : loaded q.moduleName with
  | none =>
    rw [executeReducer, hserves.missing hloaded]
    exact ⟨_, rfl, rfl, rfl⟩
  | some handlers =>
    obtain ⟨hname, hthere⟩ := hserves.there handlers hloaded
    obtain ⟨caps, entry, alloc, m, hreaches, halloc, hcall⟩ := hthere s.served
    have hguest : callInvoke alloc (invokeExport rt (.ofRegistrations (handlers.map PlainHandler.registration))) m function text =
        answer rt handlers (Utf16.decode function) event data := by
      rw [callInvoke_eq_handle hcompact hne halloc hname htext]
      exact handle_eq_answer hevent
    obtain ⟨result, hexecute, hincluded, htransformed⟩ := execute_answer rt host.env host.maxLag (host.io s.served) caps q.moduleName
      function s.store handlers (Utf16.decode function) event data hreaches
    rw [executeReducer, hcall]
    dsimp only
    rw [hguest, hexecute]
    exact ⟨_, rfl, hincluded, htransformed⟩

/-- What a round adds, but for the history of transforms. -/
structure Round (s s' : Processing) (out : Option (WasmSubscriptionQuery × WasmValue)) : Prop where
  sent : s'.sent.map (fun x => (x.query, x.data)) = s.sent.map (fun x => (x.query, x.data)) ++ out.toList
  store : s'.store = s.store

theorem round_emit (filter transform : Option CallRecord) (value : WasmValue) (hsent : s'.sent = s.sent) (hstore : s'.store = s.store) :
    Round s (emit host q s' filter transform value) (if host.callback ∧ q.clientId ≠ [] then some (q, value) else none) := by
  rw [emit]
  split
  · refine ⟨?_, hstore⟩
    dsimp only
    rw [List.map_append, hsent]
    rfl
  · refine ⟨?_, hstore⟩
    rw [hsent]
    exact (List.append_nil _).symm

theorem round_transformAndEmit (filter : Option CallRecord)
    (htransform : q.transformFunction ≠ [] → Serves host rt loaded data text q.moduleName q.transformFunction)
    (hcompact : Compact (argsDoc [.string data]) (Utf16.decode text)) (hne : text ≠ []) (htext : text.length < 2 ^ 31)
    (hevent : tryParse (Utf16.decode data) = .ok event) : ∃ s', transformAndEmit host q data s filter = (true, s') ∧
      Round s s' ((payload rt loaded data q).bind fun value => if host.callback ∧ q.clientId ≠ [] then some (q, value) else none) := by
  rw [transformAndEmit, transformEvent, payload]
  by_cases hno : q.transformFunction = []
  · rw [if_pos hno, if_pos hno]
    exact ⟨_, rfl, round_emit filter none (.string data) rfl rfl⟩
  · rw [if_neg hno, if_neg hno]
    obtain ⟨r, hcall, -, hrewritten⟩ := executeReducer_plain (s := s) (htransform hno) hcompact hne htext hevent
    rw [hcall, ← hrewritten]
    dsimp only
    cases transformed data r.result with
    | none => exact ⟨_, rfl, by simp, rfl⟩
    | some value => exact ⟨_, rfl, round_emit filter (some r) value rfl rfl⟩

theorem filterEvent_plain (hfilter : q.filterFunction ≠ [] → Serves host rt loaded data text q.moduleName q.filterFunction)
    (hcompact : Compact (argsDoc [.string data]) (Utf16.decode text)) (hne : text ≠ []) (htext : text.length < 2 ^ 31)
    (hevent : tryParse (Utf16.decode data) = .ok event) : ∃ filter s', s'.sent = s.sent ∧ s'.store = s.store ∧
      filterEvent host q data s =
        (if q.filterFunction = [] ∨ (loaded q.moduleName).any (PlainHandler.includes · (Utf16.decode q.filterFunction) event) then
          .emits filter else .skips, s') := by
  rw [filterEvent]
  by_cases hno : q.filterFunction = []
  · rw [if_pos hno]
    exact ⟨none, s, rfl, rfl, by rw [if_pos (Or.inl hno)]⟩
  · obtain ⟨r, hcall, hincluded, -⟩ := executeReducer_plain (s := s) (hfilter hno) hcompact hne htext hevent
    rw [if_neg hno, hcall, ← hincluded]
    refine ⟨some r, { s with served := s.served + 1 }, rfl, rfl, ?_⟩
    dsimp only
    cases included r.result with
    | true => rw [if_pos rfl, if_pos (Or.inr rfl)]
    | false => rw [if_neg Bool.false_ne_true, if_neg (not_or.2 ⟨hno, Bool.false_ne_true⟩)]

theorem round_processOne (hserves : ∀ f ∈ [q.filterFunction, q.transformFunction], f ≠ [] → Serves host rt loaded data text q.moduleName f)
    (hdump : host.env.dump (Lifecycle.eventJson host.env.toJsonLib ev) = some data)
    (hcompact : Compact (argsDoc [.string data]) (Utf16.decode text)) (hne : text ≠ []) (htext : text.length < 2 ^ 31)
    (hevent : tryParse (Utf16.decode data) = .ok event) : ∃ s', processOne host ev q s = (true, s') ∧
      Round s s' ((delivery rt host.callback loaded ev event data q).map fun value => (q, value)) := by
  have hfilter := hserves q.filterFunction (by simp)
  have htransform := hserves q.transformFunction (by simp)
  rw [processOne, delivery]
  by_cases htable : q.tables = [] ∨ q.tables.contains ev.table
  · have hmatches : (!q.tables.isEmpty && !q.tables.contains ev.table) = false := by
      rcases htable with h | h
      · rw [h]
        rfl
      · rw [h, Bool.not_true, Bool.and_false]
    rw [hmatches, hdump]
    dsimp only
    rw [if_neg Bool.false_ne_true]
    obtain ⟨filter, s₁, hsent, hstore, hfilterEvent⟩ := filterEvent_plain (s := s) hfilter hcompact hne htext hevent
    rw [hfilterEvent]
    by_cases hincluded : q.filterFunction = [] ∨ (loaded q.moduleName).any (PlainHandler.includes · (Utf16.decode q.filterFunction) event)
    · rw [if_pos hincluded]
      dsimp only
      obtain ⟨s', hround, hsent', hstore'⟩ := round_transformAndEmit (s := s₁) filter htransform hcompact hne htext hevent
      refine ⟨s', hround, ?_, hstore'.trans hstore⟩
      rw [hsent', hsent]
      by_cases hclient : host.callback ∧ q.clientId ≠ []
      · rw [if_pos ⟨htable, hclient, hincluded⟩]
        cases payload rt loaded data q with
        | none => rfl
        | some value => rw [Option.bind_some, if_pos hclient, Option.map_some]
      · rw [if_neg fun h => hclient h.2.1]
        cases payload rt loaded data q with
        | none => rfl
        | some value => rw [Option.bind_some, if_neg hclient, Option.map_none]
    · rw [if_neg hincluded, if_neg fun h => hincluded h.2.2]
      exact ⟨s₁, rfl, by rw [hsent]; exact (List.append_nil _).symm, hstore⟩
  · rw [not_or, Bool.not_eq_true] at htable
    have hother : (!q.tables.isEmpty && !q.tables.contains ev.table) = true := by
      rw [htable.2, Bool.not_false, Bool.and_true, Bool.not_eq_true']
      exact List.isEmpty_eq_false_iff.2 htable.1
    rw [hother, if_pos rfl, if_neg fun h => ?_]
    · exact ⟨s, rfl, by simp, rfl⟩
    · rcases h.1 with h | h
      · exact htable.1 h
      · rw [htable.2] at h
        cases h

/-! ## An event -/

theorem round_processAll (queries : List WasmSubscriptionQuery)
    (hserves : ∀ q ∈ queries, ∀ f ∈ [q.filterFunction, q.transformFunction], f ≠ [] → Serves host rt loaded data text q.moduleName f)
    (hdump : host.env.dump (Lifecycle.eventJson host.env.toJsonLib ev) = some data)
    (hcompact : Compact (argsDoc [.string data]) (Utf16.decode text)) (hne : text ≠ []) (htext : text.length < 2 ^ 31)
    (hevent : tryParse (Utf16.decode data) = .ok event) :
    (processAll host ev queries s).store = s.store ∧
    (processAll host ev queries s).sent.map (fun x => (x.query, x.data)) = s.sent.map (fun x => (x.query, x.data)) ++
      queries.filterMap fun q => (delivery rt host.callback loaded ev event data q).map fun value => (q, value) := by
  induction queries generalizing s with
  | nil => exact ⟨rfl, (List.append_nil _).symm⟩
  | cons q rest ih =>
    obtain ⟨s', hone, hsent, hstore⟩ := round_processOne (s := s) (hserves q (by simp)) hdump hcompact hne htext hevent
    obtain ⟨hrestStore, hrestSent⟩ := ih (s := s') fun q hq => hserves q (List.mem_cons_of_mem _ hq)
    rw [processAll, hone]
    refine ⟨hrestStore.trans hstore, ?_⟩
    rw [hrestSent, hsent, List.append_assoc, List.filterMap_cons]
    cases delivery rt host.callback loaded ev event data q <;> rfl

end

/-- **Which subscriptions an event is sent to.** When handlers only look at their arguments, an event is sent to exactly the
subscriptions `delivery` says, in the order of their container, each with what its transform has made of it, and the tables stay as
they are. The filter of a subscription is given the members of the event. -/
theorem filters_decide (host : EventHost) (rt : JsonValue.Runtime) (loaded : Bytes → Option (List PlainHandler))
    (m : WasmSubscriptionManager) (ev : ChangefeedEvent) (s : Store) (data text : Bytes)
    (hdump : host.env.dump (Lifecycle.eventJson host.env.toJsonLib ev) = some data)
    (hdata : Compact (Lifecycle.eventJson host.env.toJsonLib ev).reparsed (Utf16.decode data))
    (hargs : serializeArgs host.env.toJsonLib [.string data] = some text)
    (hcompact : Compact (argsDoc [.string data]) (Utf16.decode text)) (htext : text.length < 2 ^ 31)
    (hserves : ∀ (id : Bytes) (q : WasmSubscriptionQuery), m.subscriptions[id]? = some q →
      ∀ f ∈ [q.filterFunction, q.transformFunction], f ≠ [] → Serves host rt loaded data text q.moduleName f) :
    (processSingleEvent host m ev s).store = s ∧
    (processSingleEvent host m ev s).sent.map (fun x => (x.query, x.data)) =
      ((host.env.order.list m.subscriptions).map Prod.snd).filterMap fun q =>
        (delivery rt host.callback loaded ev (guestValue (Lifecycle.eventJson host.env.toJsonLib ev).reparsed) data q).map
          fun value => (q, value) := by
  have hne : text ≠ [] := by
    rintro rfl
    exact host.env.toJsonLib.dump_ne_nil hargs
  have hqueries : ∀ q ∈ (host.env.order.list m.subscriptions).map Prod.snd, ∀ f ∈ [q.filterFunction, q.transformFunction],
      f ≠ [] → Serves host rt loaded data text q.moduleName f := by
    intro q hq
    obtain ⟨p, hp, rfl⟩ := List.mem_map.1 hq
    exact hserves p.1 p.2 ((mem_list_iff host.env.order m.subscriptions).1 hp)
  have hround := round_processAll (s := { store := s }) _ hqueries hdump hcompact hne htext (tryParse_of_compact hdata)
  exact hround

/-! ## Two subscriptions -/

def insertEvent : ChangefeedEvent where
  offset := 1
  transactionId := str "x"
  table := str "t"
  operation := str "INSERT"
  key := str "k"
  timestamp := 0

def insertDoc : Json :=
  .object [(str "key", .string (str "k")), (str "new_value", .null), (str "offset", .int 1), (str "old_value", .null),
    (str "operation", .string (str "INSERT")), (str "table", .string (str "t")), (str "transaction_id", .string (str "x"))]

def insertText : Bytes :=
  str "\x7b\"key\":\"k\",\"new_value\":null,\"offset\":1,\"old_value\":null,\"operation\":\"INSERT\",\"table\":\"t\",\"transaction_id\":\"x\"\x7d"

/-- The event as the only argument of a call. -/
def insertArgs : Bytes := [0x5b] ++ Utf16.encode (JsonValue.quote (Utf16.decode insertText)) ++ [0x5d]

def insertCall : Json := .array [.string insertText]

def insertDocs : List (Json × Bytes) := [(insertDoc, insertText), (insertCall, insertArgs)]

/-- A filter that waits for one key. -/
def keyFilter : List PlainHandler := [.filter (Utf16.units "f".toList) fun event =>
  (event.get (Utf16.units "key".toList)).asString == Utf16.units "k".toList]

/-- The second one names a filter that there is not. -/
def twoQueries : List WasmSubscriptionQuery :=
  [{ id := str "a", moduleName := str "m", filterFunction := str "f", clientId := str "c" },
   { id := str "b", moduleName := str "m", filterFunction := str "g", clientId := str "c" }]

def onlyM (name : Bytes) : Option (List PlainHandler) := if name = str "m" then some keyFilter else none

theorem insertDocs_evaluated :
    (∀ d ∈ insertDocs, d.2 ≠ [] ∧ d.2.head? ≠ some 35 ∧ parseTable insertDocs d.2 = some d.1.reparsed) ∧
    (insertDoc.utf8 = true ∧ insertDocs.lookup insertDoc = some insertText ∧ insertDoc.reparsed = insertDoc) ∧
    (insertCall.utf8 = true ∧ insertDocs.lookup insertCall = some insertArgs ∧ insertArgs.length < 1000) ∧
    Utf16.decode insertText = [0x7b] ++ (JsonValue.quote (Utf16.decode (str "key")) ++ [0x3a] ++ JsonValue.quote (Utf16.decode (str "k")) ++
      [0x2c] ++ (JsonValue.quote (Utf16.decode (str "new_value")) ++ [0x3a] ++ Utf16.units "null".toList ++
      [0x2c] ++ (JsonValue.quote (Utf16.decode (str "offset")) ++ [0x3a] ++ JsonValue.i64ToString 1 ++
      [0x2c] ++ (JsonValue.quote (Utf16.decode (str "old_value")) ++ [0x3a] ++ Utf16.units "null".toList ++
      [0x2c] ++ (JsonValue.quote (Utf16.decode (str "operation")) ++ [0x3a] ++ JsonValue.quote (Utf16.decode (str "INSERT")) ++
      [0x2c] ++ (JsonValue.quote (Utf16.decode (str "table")) ++ [0x3a] ++ JsonValue.quote (Utf16.decode (str "t")) ++
      [0x2c] ++ (JsonValue.quote (Utf16.decode (str "transaction_id")) ++ [0x3a] ++ JsonValue.quote (Utf16.decode (str "x"))))))))) ++
      [0x7d] ∧
    Utf16.decode insertArgs = [0x5b] ++ JsonValue.quote (Utf16.decode insertText) ++ [0x5d] ∧
    (twoQueries.filterMap fun q => (delivery half true onlyM insertEvent (guestValue insertDoc) insertText q).map fun value =>
      (q.id, value)) = [(str "a", .string insertText)] := by
  decide +kernel

noncomputable def insertEnv : Env := { toJsonLib := .extended insertDocs insertDocs_evaluated.1, order := .sorted }

theorem compact_insertDoc : Compact insertDoc (Utf16.decode insertText) := by
  obtain ⟨-, -, -, htext, -⟩ := insertDocs_evaluated
  have hnull : Compact .null nullText := by rw [Compact]
  have hint : Compact (.int 1) (JsonValue.i64ToString 1) := by
    rw [Compact]
    exact ⟨by decide, rfl⟩
  have hstring : ∀ w : String, Compact (.string (str w)) (JsonValue.quote (Utf16.decode (str w))) := fun w => compact_string (utf8_str w)
  have hlast : CompactMembers [(str "transaction_id", .string (str "x"))]
      (JsonValue.quote (Utf16.decode (str "transaction_id")) ++ [0x3a] ++ JsonValue.quote (Utf16.decode (str "x"))) := by
    rw [CompactMembers]
    exact ⟨_, _, compact_name "transaction_id", hstring "x", rfl⟩
  have hmembers := compactMembers_cons.2 ⟨_, _, _, compact_name "key", hstring "k",
    compactMembers_cons.2 ⟨_, _, _, compact_name "new_value", hnull,
    compactMembers_cons.2 ⟨_, _, _, compact_name "offset", hint,
    compactMembers_cons.2 ⟨_, _, _, compact_name "old_value", hnull,
    compactMembers_cons.2 ⟨_, _, _, compact_name "operation", hstring "INSERT",
    compactMembers_cons.2 ⟨_, _, _, compact_name "table", hstring "t", hlast, rfl⟩, rfl⟩, rfl⟩, rfl⟩, rfl⟩, rfl⟩
  rw [insertDoc, Compact]
  exact ⟨by decide, _, hmembers, htext⟩

/-- The module `m`, whichever call it is. -/
noncomputable def insertHost : EventHost where
  env := insertEnv
  calls _ name function _ := (onlyM name).map fun handlers => ModuleCall.mk {} {}
    (callInvoke bump (invokeExport half (.ofRegistrations (handlers.map PlainHandler.registration))) [0] function insertArgs)

def insertSubscriptions : WasmSubscriptionManager :=
  { subscriptions := ((∅ : StrMap WasmSubscriptionQuery).insert (str "a") twoQueries[0]).insert (str "b") twoQueries[1] }

theorem insertSubscriptions_list : insertSubscriptions.subscriptions.toList.map Prod.snd = twoQueries := rfl

theorem filters_decide_insert :
    (processSingleEvent insertHost insertSubscriptions insertEvent {}).sent.map (fun x => (x.query.id, x.data)) =
      [(str "a", .string insertText)] := by
  obtain ⟨hdocs, ⟨hutf, hlookup, hreparsed⟩, ⟨hargsUtf, hargsLookup, hargsLength⟩, -, hargsText, hsent⟩ := insertDocs_evaluated
  have hdoc : Lifecycle.eventJson insertHost.env.toJsonLib insertEvent = insertDoc := rfl
  have hdump : insertHost.env.dump (Lifecycle.eventJson insertHost.env.toJsonLib insertEvent) = some insertText := by
    rw [hdoc]
    exact JsonLib.dump_extended hdocs hutf hlookup
  have hargs : serializeArgs insertHost.env.toJsonLib [.string insertText] = some insertArgs := by
    rw [serializeArgs_string]
    exact JsonLib.dump_extended hdocs hargsUtf hargsLookup
  have hcompact : Compact (argsDoc [.string insertText]) (Utf16.decode insertArgs) := by
    rw [hargsText, argsDoc_string, Compact]
    refine ⟨JsonValue.quote (Utf16.decode insertText), ?_, rfl⟩
    rw [CompactElements]
    exact compact_string (utf8_str _)
  have hserves : ∀ f : Bytes, f.length < 1000 → Serves insertHost half onlyM insertText insertArgs (str "m") f := by
    intro f hf
    refine ⟨fun hmissing => ?_, fun handlers hthere => ⟨by omega, fun k => ?_⟩⟩
    · rw [onlyM, if_pos rfl] at hmissing
      cases hmissing
    · refine ⟨{}, {}, bump, [0], rfl, allocates_bump (by simp) ?_, ?_⟩
      · rw [List.length_singleton]
        omega
      · simp only [insertHost, hthere, Option.map_some]
  have hlist : (insertHost.env.order.list insertSubscriptions.subscriptions).map Prod.snd = twoQueries := insertSubscriptions_list
  have hqueries : ∀ (id : Bytes) (q : WasmSubscriptionQuery), insertSubscriptions.subscriptions[id]? = some q → q ∈ twoQueries := by
    intro id q hq
    rw [← hlist]
    exact List.mem_map.2 ⟨(id, q), (mem_list_iff insertHost.env.order _).2 hq, rfl⟩
  have hall : ∀ (id : Bytes) (q : WasmSubscriptionQuery), insertSubscriptions.subscriptions[id]? = some q →
      ∀ f ∈ [q.filterFunction, q.transformFunction], f ≠ [] → Serves insertHost half onlyM insertText insertArgs q.moduleName f := by
    intro id q hq f hf _
    have htwo := hqueries id q hq
    simp only [twoQueries, List.mem_cons, List.not_mem_nil, or_false] at htwo
    obtain rfl | rfl := htwo
    · simp only [List.mem_cons, List.not_mem_nil, or_false] at hf
      obtain rfl | rfl := hf
      · exact hserves _ (by decide)
      · exact hserves _ (by decide)
    · simp only [List.mem_cons, List.not_mem_nil, or_false] at hf
      obtain rfl | rfl := hf
      · exact hserves _ (by decide)
      · exact hserves _ (by decide)
  obtain ⟨-, hround⟩ := filters_decide insertHost half onlyM insertSubscriptions insertEvent {} insertText insertArgs hdump
    (by rw [hdoc, hreparsed]; exact compact_insertDoc) hargs hcompact (by omega) hall
  rw [hdoc, hreparsed, hlist] at hround
  have hids := congrArg (List.map fun p : WasmSubscriptionQuery × WasmValue => (p.1.id, p.2)) hround
  rw [List.map_map, List.map_filterMap] at hids
  rw [Function.comp_def] at hids
  rw [hids, ← hsent]
  refine List.filterMap_congr fun q _ => ?_
  rw [Option.map_map]
  rfl

end OriginDB.Sdk
