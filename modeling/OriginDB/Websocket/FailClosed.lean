import OriginDB.Websocket.Lifecycle
/-!
# What a WASM subscription sends (`wasm_subscription.cpp:330-417`, `wasm_engine.cpp:329-357`)

A call that is committed yields the bytes its guest has passed to `host_set_result`, and where it has passed none the
status. `ProcessSingleEvent` takes a status as a verdict of a filter, and as no objection of a transform: a transform that
returns without a result leaves the event as it is, and the event is sent (`fails_closed_iff`).

| here | there |
| --- | --- |
| `filterEvent`, `transformEvent` | the two calls (`:346-378`, `:384-407`) |
| `emit`                          | `subscription_callback_` (`:410-413`) |
| `processSingleEvent`            | `ProcessSingleEvent`, over the subscriptions in the order of their container |

The metrics are left out. `filter`, `transform` and `transforms` are history: what the two calls came back with, and
what their guests had set. An exception that leaves a call or `ConvertEventToWasmValue` ends the loop, and the process.
-/
namespace OriginDB

open JsonDoc ByteCodec Wasm

/-- A module as a call finds it, and what its guest does. -/
structure ModuleCall where
  caps : ModuleCapabilities := {}
  entry : Wasm.Entry := {}
  guest : Guest

/-- What `ProcessSingleEvent` runs on: each call is numbered, and finds a module by its name, the function and the event. -/
structure EventHost where
  env : Env
  maxLag : Nat := 0
  io : Nat → Io := fun _ => {}
  calls : Nat → Bytes → Bytes → Bytes → Option ModuleCall
  /-- `subscription_callback_` is set. -/
  callback : Bool := true

/-- What a call came back with, and what its guest has passed to `host_set_result`. -/
structure CallRecord where
  result : WasmResult
  set : Option Bytes

/-- What a client is sent, and the two calls it was sent on. -/
structure SentEvent where
  query : WasmSubscriptionQuery
  filter : Option CallRecord
  transform : Option CallRecord
  data : WasmValue

structure Processing where
  store : Store := {}
  served : Nat := 0
  sent : List SentEvent := []
  /-- The calls of transforms. -/
  transforms : List (WasmSubscriptionQuery × CallRecord) := []

namespace Processing

section
variable (host : EventHost) (ev : ChangefeedEvent) (q : WasmSubscriptionQuery) (data : Bytes) (s : Processing)

/-- `ExecuteReducer` (wasm_engine.cpp:725); `none` is an exception. -/
def executeReducer (function : Bytes) : Option CallRecord × Processing :=
  match host.calls s.served q.moduleName function data with
  | none => (some { result := { success := false, error := str "module not found: " ++ q.moduleName }, set := none },
      { s with served := s.served + 1 })
  | some c =>
    let set := if Lifecycle.reaches c.entry then (c.guest.run host.env.toJsonLib c.caps s.store {}).1.result else none
    match execute host.env host.maxLag (host.io s.served) c.caps q.moduleName function c.entry c.guest s.store with
    | .returned result store => (some { result := result, set := set }, { s with store := store, served := s.served + 1 })
    | .threw store => (none, { s with store := store, served := s.served + 1 })

/-- Whether the loop goes on to the next step, to the next subscription, or not at all. -/
inductive Verdict (α : Type) where
  | emits (a : α)
  | skips
  | throws

/-- A filter includes the event: it has ended with a status other than 0 (wasm_subscription.cpp:359). -/
def included (result : WasmResult) : Bool :=
  result.success && match result.value with
    | some (.inr status) => status ≠ 0
    | _ => false

def filterEvent : Verdict (Option CallRecord) × Processing :=
  if q.filterFunction = [] then (.emits none, s)
  else match executeReducer host q data s q.filterFunction with
    | (none, s) => (.throws, s)
    | (some r, s) => (if included r.result then .emits (some r) else .skips, s)

/-- What a transform makes of the event (wasm_subscription.cpp:396). -/
def transformed (result : WasmResult) : Option WasmValue :=
  if result.success then
    match result.value with
    | none => none
    | some (.inl bytes) => some (.bytes bytes)
    | some (.inr _) => some (.string data)
  else none

def transformEvent : Verdict (Option CallRecord × WasmValue) × Processing :=
  if q.transformFunction = [] then (.emits (none, .string data), s)
  else match executeReducer host q data s q.transformFunction with
    | (none, s) => (.throws, s)
    | (some r, s) =>
      let s := { s with transforms := s.transforms ++ [(q, r)] }
      match transformed data r.result with
      | none => (.skips, s)
      | some value => (.emits (some r, value), s)

def emit (filter transform : Option CallRecord) (value : WasmValue) : Processing :=
  if host.callback ∧ q.clientId ≠ [] then
    { s with sent := s.sent ++ [{ query := q, filter := filter, transform := transform, data := value }] }
  else s

/-- The round from the transform on. -/
def transformAndEmit (filter : Option CallRecord) : Bool × Processing :=
  match transformEvent host q data s with
  | (.throws, s) => (false, s)
  | (.skips, s) => (true, s)
  | (.emits (transform, value), s) => (true, emit host q s filter transform value)

/-- One round of the loop; `false` is an exception. -/
def processOne : Bool × Processing :=
  if !q.tables.isEmpty && !q.tables.contains ev.table then (true, s)
  else match host.env.dump (Lifecycle.eventJson host.env.toJsonLib ev) with
    | none => (false, s)
    | some data =>
      match filterEvent host q data s with
      | (.throws, s) => (false, s)
      | (.skips, s) => (true, s)
      | (.emits filter, s) => transformAndEmit host q data s filter

end

def processAll (host : EventHost) (ev : ChangefeedEvent) : List WasmSubscriptionQuery → Processing → Processing
  | [], s => s
  | q :: rest, s =>
    match processOne host ev q s with
    | (true, s) => processAll host ev rest s
    | (false, s) => s

end Processing

/-- `ProcessSingleEvent` (wasm_subscription.cpp:330). -/
def processSingleEvent (host : EventHost) (m : WasmSubscriptionManager) (ev : ChangefeedEvent) (store : Store) : Processing :=
  Processing.processAll host ev ((host.env.order.list m.subscriptions).map Prod.snd) { store := store }

namespace Processing

/-! ## What is promised -/

/-- The table, the filter and the transform let the event through. -/
structure Cleared (ev : ChangefeedEvent) (x : SentEvent) : Prop where
  table : x.query.tables = [] ∨ ev.table ∈ x.query.tables
  filter : x.query.filterFunction ≠ [] → ∃ r status, x.filter = some r ∧ r.result.success = true ∧ r.result.value = some (.inr status) ∧ status ≠ 0
  transform : x.query.transformFunction ≠ [] → ∃ r, x.transform = some r ∧ r.result.success = true

/-- And what is sent is what the transform has set. -/
structure FailsClosed (ev : ChangefeedEvent) (x : SentEvent) : Prop extends Cleared ev x where
  payload : x.query.transformFunction ≠ [] → ∃ r bytes, x.transform = some r ∧ r.set = some bytes ∧ x.data = .bytes bytes

/-- The call is committed, and its guest has set no result. -/
def Bare (r : CallRecord) : Prop := r.result.success = true ∧ ∃ status, r.result.value = some (.inr status)

/-- Not a transform that comes back without a result, for a client that there is. -/
def Harmless (host : EventHost) (p : WasmSubscriptionQuery × CallRecord) : Prop :=
  Bare p.2 → ¬ (host.callback = true ∧ p.1.clientId ≠ [])

/-! ## What a call returns -/

section
variable {host : EventHost} {ev : ChangefeedEvent} {q : WasmSubscriptionQuery} {data : Bytes} {s s' : Processing} {r : CallRecord}

/-- What `Execute` returns of a call that succeeds: what the guest has set, else the status; nothing when a reserved name
has no handler. -/
theorem execute_success {env : Env} {maxLag : Nat} {io : Io} {caps : ModuleCapabilities} {moduleName function : Bytes} {entry : Wasm.Entry}
    {guest : Guest} {store store' : Store} {result : WasmResult}
    (h : execute env maxLag io caps moduleName function entry guest store = .returned result store') (hs : result.success = true) :
    result.value = none ∨ Lifecycle.reaches entry = true ∧ ∃ status : Int32,
      result.value = some ((guest.run env.toJsonLib caps store {}).1.result.elim (.inr status) .inl) := by
  unfold execute at h
  split at h
  · cases h
    cases hs
  rename_i hshutdown
  split at h
  · cases h
    cases hs
  rename_i hinstantiated
  have hreaches : Lifecycle.reaches entry = true := by
    rw [Lifecycle.reaches, hinstantiated]
    simpa [Except.isOk, Except.toBool] using hshutdown
  split at h
  · cases h
  · cases h
    cases hs
  rename_i call status hrun
  split at h
  · split at h
    · cases h
      exact Or.inl rfl
    · cases h
      cases hs
  split at h
  · cases h
    cases hs
  split at h
  · cases h
  · cases h
    cases hs
  · cases h
    refine Or.inr ⟨hreaches, status, ?_⟩
    rw [hrun]

variable (host q data s) in
/-- A call adds neither to what is sent nor to the history, and says what its guest has set. -/
theorem executeReducer_spec (function : Bytes) :
    (executeReducer host q data s function).2.sent = s.sent ∧ (executeReducer host q data s function).2.transforms = s.transforms ∧
      ∀ r, (executeReducer host q data s function).1 = some r → r.result.success = true →
        r.result.value = none ∨ ∃ status : Int32, r.result.value = some (r.set.elim (.inr status) .inl) := by
  unfold executeReducer
  split
  · refine ⟨rfl, rfl, fun r hr hs => ?_⟩
    cases hr
    cases hs
  · rename_i c hc
    simp only
    split
    · rename_i result store hexecute
      refine ⟨rfl, rfl, fun r hr hs => ?_⟩
      cases hr
      obtain hnone | ⟨hreaches, status, hvalue⟩ := execute_success hexecute hs
      · exact Or.inl hnone
      · exact Or.inr ⟨status, by rw [hvalue, if_pos hreaches]⟩
    · exact ⟨rfl, rfl, fun r hr => by cases hr⟩

/-- What is added to what is sent and to the history. -/
structure Adds (host : EventHost) (ev : ChangefeedEvent) (s s' : Processing) (xs : List SentEvent)
    (ps : List (WasmSubscriptionQuery × CallRecord)) : Prop where
  sent : s'.sent = s.sent ++ xs
  transforms : s'.transforms = s.transforms ++ ps
  cleared : ∀ x ∈ xs, Cleared ev x
  closed : (∀ x ∈ xs, FailsClosed ev x) ↔ ∀ p ∈ ps, Harmless host p

/-- Nothing is sent, and no transform has come back without a result to a client. -/
theorem Adds.nothing {ps : List (WasmSubscriptionQuery × CallRecord)} (hsent : s'.sent = s.sent)
    (htransforms : s'.transforms = s.transforms ++ ps) (hps : ∀ p ∈ ps, Harmless host p) : Adds host ev s s' [] ps :=
  ⟨by simpa using hsent, htransforms, by simp, by simpa using hps⟩

theorem Adds.trans {s'' : Processing} {xs ys : List SentEvent} {ps rs : List (WasmSubscriptionQuery × CallRecord)}
    (h : Adds host ev s s' xs ps) (h' : Adds host ev s' s'' ys rs) : Adds host ev s s'' (xs ++ ys) (ps ++ rs) where
  sent := by rw [h'.sent, h.sent, List.append_assoc]
  transforms := by rw [h'.transforms, h.transforms, List.append_assoc]
  cleared x hx := (List.mem_append.1 hx).elim (h.cleared x) (h'.cleared x)
  closed := by
    simp only [List.mem_append, or_imp, forall_and]
    exact and_congr h.closed h'.closed

theorem included_iff {result : WasmResult} :
    included result = true ↔ result.success = true ∧ ∃ status, result.value = some (.inr status) ∧ status ≠ 0 := by
  obtain ⟨success, error, value⟩ := result
  rcases value with - | (bytes | status) <;> simp [included]

/-- What a filter that lets the event through has come back with. -/
theorem filterEvent_spec {filter : Option CallRecord} (h : filterEvent host q data s = (.emits filter, s')) :
    q.filterFunction ≠ [] → ∃ r status, filter = some r ∧ r.result.success = true ∧ r.result.value = some (.inr status) ∧ status ≠ 0 := by
  intro hne
  rw [filterEvent, if_neg hne] at h
  split at h
  · cases h
  · rename_i r s'' hcall
    split at h
    · rename_i hincluded
      cases h
      obtain ⟨hsuccess, status, hvalue, hstatus⟩ := included_iff.1 hincluded
      exact ⟨r, status, rfl, hsuccess, hvalue, hstatus⟩
    · cases h

variable (host q data s) in
/-- A filter adds nothing. -/
theorem filterEvent_keeps : (filterEvent host q data s).2.sent = s.sent ∧ (filterEvent host q data s).2.transforms = s.transforms := by
  have hspec := executeReducer_spec host q data s q.filterFunction
  unfold filterEvent
  split
  · exact ⟨rfl, rfl⟩
  · generalize executeReducer host q data s q.filterFunction = called at hspec
    obtain ⟨- | r, s''⟩ := called
    · exact ⟨hspec.1, hspec.2.1⟩
    · exact ⟨hspec.1, hspec.2.1⟩

/-- What a transform leaves behind. -/
inductive Transforms (host : EventHost) (q : WasmSubscriptionQuery) (data : Bytes) (s : Processing) :
    Verdict (Option CallRecord × WasmValue) → Processing → Prop
  | none (hno : q.transformFunction = []) : Transforms host q data s (.emits (none, .string data)) s
  | throws (s' : Processing) (hsent : s'.sent = s.sent) (hsame : s'.transforms = s.transforms) : Transforms host q data s .throws s'
  | skips (s' : Processing) (r : CallRecord) (hsent : s'.sent = s.sent) (hlog : s'.transforms = s.transforms ++ [(q, r)])
      (hbare : ¬ Bare r) : Transforms host q data s .skips s'
  | sets (s' : Processing) (r : CallRecord) (bytes : Bytes) (hsent : s'.sent = s.sent) (hlog : s'.transforms = s.transforms ++ [(q, r)])
      (hsome : q.transformFunction ≠ []) (hsuccess : r.result.success = true) (hset : r.set = some bytes) (hbare : ¬ Bare r) :
      Transforms host q data s (.emits (some r, .bytes bytes)) s'
  | bare (s' : Processing) (r : CallRecord) (hsent : s'.sent = s.sent) (hlog : s'.transforms = s.transforms ++ [(q, r)])
      (hsome : q.transformFunction ≠ []) (hbare : Bare r) : Transforms host q data s (.emits (some r, .string data)) s'

variable (host q data s) in
theorem transformEvent_spec : Transforms host q data s (transformEvent host q data s).1 (transformEvent host q data s).2 := by
  have hspec := executeReducer_spec host q data s q.transformFunction
  unfold transformEvent
  split
  · exact .none ‹_›
  · rename_i hsome
    generalize executeReducer host q data s q.transformFunction = called at hspec
    obtain ⟨hsent, hsame, hset⟩ := hspec
    obtain ⟨- | r, s'⟩ := called
    · exact .throws s' hsent hsame
    · have hset := hset r rfl
      have hlog : s'.transforms ++ [(q, r)] = s.transforms ++ [(q, r)] := by rw [hsame]
      obtain ⟨⟨success, error, value⟩, set⟩ := r
      cases success with
      | false => exact .skips _ _ hsent hlog fun hbare => by cases hbare.1
      | true =>
        obtain hnone | ⟨status, hvalue⟩ := hset rfl
        · obtain rfl : value = none := hnone
          exact .skips _ _ hsent hlog fun hbare => by obtain ⟨-, status, hno⟩ := hbare; cases hno
        · cases set with
          | none =>
            obtain rfl : value = some (.inr status) := hvalue
            exact .bare _ _ hsent hlog hsome ⟨rfl, status, rfl⟩
          | some bytes =>
            obtain rfl : value = some (.inl bytes) := hvalue
            exact .sets _ _ bytes hsent hlog hsome rfl rfl fun hbare => by obtain ⟨-, status, hno⟩ := hbare; cases hno

variable (host) in
/-- What is emitted on the two calls. -/
theorem emit_adds {filter transform : Option CallRecord} {value : WasmValue} {x : SentEvent}
    (ps : List (WasmSubscriptionQuery × CallRecord)) (hx : x = { query := q, filter := filter, transform := transform, data := value }) (hsent : s'.sent = s.sent)
    (hlog : s'.transforms = s.transforms ++ ps) (hcleared : Cleared ev x)
    (hclosed : host.callback = true ∧ q.clientId ≠ [] → (FailsClosed ev x ↔ ∀ p ∈ ps, Harmless host p))
    (hps : ∀ p ∈ ps, p.1 = q) : ∃ xs, Adds host ev s (emit host q s' filter transform value) xs ps := by
  unfold emit
  split
  · rename_i hclient
    refine ⟨[x], by rw [← hx, ← hsent], hlog, by simpa using hcleared, ?_⟩
    simpa using hclosed hclient
  · rename_i hclient
    refine ⟨[], .nothing hsent hlog fun p hp _ => ?_⟩
    rw [hps p hp]
    exact hclient

variable (host data s) in
/-- The round from the transform on, when the table and the filter have let the event through. -/
theorem transformAndEmit_adds {filter : Option CallRecord} (htable : q.tables = [] ∨ ev.table ∈ q.tables)
    (hfilter : q.filterFunction ≠ [] → ∃ r status, filter = some r ∧ r.result.success = true ∧ r.result.value = some (.inr status) ∧ status ≠ 0) :
    ∃ xs ps, Adds host ev s (transformAndEmit host q data s filter).2 xs ps := by
  have htransforms := transformEvent_spec host q data s
  unfold transformAndEmit
  generalize transformEvent host q data s = result at htransforms ⊢
  obtain ⟨verdict, s₂⟩ := result
  simp only at htransforms
  cases htransforms with
  | none hno =>
    have hcleared : Cleared ev { query := q, filter := filter, transform := none, data := .string data } :=
      ⟨htable, hfilter, fun h => absurd hno h⟩
    obtain ⟨xs, h⟩ := emit_adds host [] rfl rfl (by simp) hcleared
      (fun _ => iff_of_true ⟨hcleared, fun h => absurd hno h⟩ (by simp)) (by simp)
    exact ⟨xs, [], h⟩
  | throws _ hsent hsame => exact ⟨[], [], .nothing hsent (by simp [hsame]) (by simp)⟩
  | skips _ r hsent hlog hbare =>
    refine ⟨[], [(q, r)], .nothing hsent hlog fun p hp hb => ?_⟩
    obtain rfl := List.mem_singleton.1 hp
    exact absurd hb hbare
  | sets _ r bytes hsent hlog hsome hsuccess hset hbare =>
    have hcleared : Cleared ev { query := q, filter := filter, transform := some r, data := .bytes bytes } :=
      ⟨htable, hfilter, fun _ => ⟨r, rfl, hsuccess⟩⟩
    obtain ⟨xs, h⟩ := emit_adds host [(q, r)] rfl hsent hlog hcleared
      (fun _ => iff_of_true ⟨hcleared, fun _ => ⟨r, bytes, rfl, hset, rfl⟩⟩ (by
        rintro p hp hb
        obtain rfl := List.mem_singleton.1 hp
        exact absurd hb hbare)) (by simp)
    exact ⟨xs, _, h⟩
  | bare _ r hsent hlog hsome hbare =>
    have hcleared : Cleared ev { query := q, filter := filter, transform := some r, data := .string data } :=
      ⟨htable, hfilter, fun _ => ⟨r, rfl, hbare.1⟩⟩
    obtain ⟨xs, h⟩ := emit_adds host [(q, r)] rfl hsent hlog hcleared
      (fun hclient => iff_of_false (fun hclosed => by
          obtain ⟨r', bytes, -, -, hdata⟩ := hclosed.payload hsome
          cases hdata)
        fun hharmless => hharmless (q, r) (by simp) hbare hclient) (by simp)
    exact ⟨xs, _, h⟩

variable (host ev q s) in
/-- **One round of the loop.** -/
theorem processOne_adds : ∃ xs ps, Adds host ev s (processOne host ev q s).2 xs ps := by
  unfold processOne
  split
  · exact ⟨[], [], .nothing rfl (by simp) (by simp)⟩
  rename_i htable
  have htable : q.tables = [] ∨ ev.table ∈ q.tables := by
    by_contra hno
    push Not at hno
    exact htable (by simpa using hno)
  split
  · exact ⟨[], [], .nothing rfl (by simp) (by simp)⟩
  rename_i data hdump
  have hkeeps := filterEvent_keeps host q data s
  have hfilter := fun filter s' (h : filterEvent host q data s = (.emits filter, s')) => filterEvent_spec h
  generalize filterEvent host q data s = filtered at hkeeps hfilter ⊢
  obtain ⟨verdict, s₁⟩ := filtered
  have hnothing : Adds host ev s s₁ [] [] := .nothing hkeeps.1 (by simpa using hkeeps.2) (by simp)
  cases verdict with
  | emits filter =>
    obtain ⟨xs, ps, h⟩ := transformAndEmit_adds host data s₁ htable (hfilter filter s₁ rfl)
    exact ⟨xs, ps, hnothing.trans h⟩
  | skips | throws => exact ⟨[], [], hnothing⟩

variable (host ev) in
/-- The whole loop. -/
theorem processAll_adds (qs : List WasmSubscriptionQuery) (s : Processing) : ∃ xs ps, Adds host ev s (processAll host ev qs s) xs ps := by
  induction qs generalizing s with
  | nil => exact ⟨[], [], .nothing rfl (by simp [processAll]) (by simp)⟩
  | cons q rest ih =>
    obtain ⟨xs, ps, hone⟩ := processOne_adds host ev q s
    unfold processAll
    generalize processOne host ev q s = result at hone ⊢
    obtain ⟨- | -, s'⟩ := result
    · exact ⟨xs, ps, hone⟩
    · obtain ⟨ys, rs, hrest⟩ := ih s'
      exact ⟨xs ++ ys, ps ++ rs, hone.trans hrest⟩

end

end Processing

/-- **WASM subscriptions fail closed exactly when** no transform comes back without a result to a client. What is sent has
passed the table list and the filter, and its transform has succeeded, in any case. -/
theorem fails_closed_iff (host : EventHost) (m : WasmSubscriptionManager) (ev : ChangefeedEvent) (store : Store) :
    (∀ x ∈ (processSingleEvent host m ev store).sent, Processing.Cleared ev x) ∧
    ((∀ x ∈ (processSingleEvent host m ev store).sent, Processing.FailsClosed ev x) ↔
      ∀ p ∈ (processSingleEvent host m ev store).transforms, Processing.Harmless host p) := by
  obtain ⟨xs, ps, h⟩ := Processing.processAll_adds host ev ((host.env.order.list m.subscriptions).map Prod.snd)
    { store := store }
  have hsent : (processSingleEvent host m ev store).sent = xs := by rw [processSingleEvent, h.sent, List.nil_append]
  have hlog : (processSingleEvent host m ev store).transforms = ps := by rw [processSingleEvent, h.transforms, List.nil_append]
  rw [hsent, hlog]
  exact ⟨h.cleared, h.closed⟩

/-- A row with a column that a client is not to see. -/
def privateEvent : ChangefeedEvent :=
  { table := str "users", operation := str "INSERT", key := str "k", newValue := str "\x7b\"ssn\":7\x7d", transactionId := str "1", timestamp := 0 }

def privateJson : Json :=
  .object [(str "key", .string (str "k")), (str "new_value", .object [(str "ssn", .int 7)]), (str "offset", .int 0), (str "old_value", .null),
    (str "operation", .string (str "INSERT")), (str "table", .string (str "users")), (str "transaction_id", .string (str "1"))]

def privateText : Bytes :=
  str "\x7b\"key\":\"k\",\"new_value\":\x7b\"ssn\":7\x7d,\"offset\":0,\"old_value\":null,\"operation\":\"INSERT\",\"table\":\"users\",\"transaction_id\":\"1\"\x7d"

/-- A transform that is meant to redact the row, and returns 0 without a result. -/
def forgetfulHost : EventHost where
  env := { toJsonLib := .ofTable [(.object [(str "ssn", .int 7)], str "\x7b\"ssn\":7\x7d"), (privateJson, privateText)] (by decide)
           order := .sorted }
  calls _ _ _ _ := some { guest := .returns 0 }

def redactedFeed : WasmSubscriptionManager where
  subscriptions := (∅ : StrMap WasmSubscriptionQuery).insert (str "wasm_sub_1")
    { moduleName := str "m", transformFunction := str "redact", clientId := str "c" }

/-- The client is sent the row as it is. -/
theorem untransformed_event_sent : ∃ x ∈ (processSingleEvent forgetfulHost redactedFeed privateEvent {}).sent,
    x.query.clientId = str "c" ∧ x.query.transformFunction = str "redact" ∧ x.data = .string privateText ∧
      ¬ Processing.FailsClosed privateEvent x := by
  have hsent : (processSingleEvent forgetfulHost redactedFeed privateEvent {}).sent.map (fun x =>
      (x.query.clientId, x.query.transformFunction, x.data)) = [(str "c", str "redact", .string privateText)] := by decide +kernel
  obtain ⟨x, hx⟩ := List.length_eq_one_iff.1 (by simpa using congrArg List.length hsent)
  rw [hx] at hsent ⊢
  simp only [List.map_cons, List.map_nil, List.cons.injEq, Prod.mk.injEq, and_true] at hsent
  obtain ⟨hclient, hfunction, hdata⟩ := hsent
  refine ⟨x, List.mem_singleton_self x, hclient, hfunction, hdata, fun hclosed => ?_⟩
  obtain ⟨r, bytes, -, -, hbytes⟩ := hclosed.payload (by rw [hfunction]; decide)
  rw [hdata] at hbytes
  cases hbytes

end OriginDB
