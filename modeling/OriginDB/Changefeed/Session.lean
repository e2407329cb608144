import OriginDB.Changefeed.Frames
import OriginDB.Changefeed.Readers
/-!
# A subscriber and its frames (`websocket_server.cpp:702-768, 1019-1211`, `changefeed_engine.cpp:382-470`)

Three threads and one client. The committer runs one successful `Commit` after the other; the delivery
thread takes the events off the queue, asks the subscription manager who wants them and sends; the thread of
the subscribing client registers the subscription, reads the table and sends `initial_state`. Nothing
orders the last two: an event that is newer than the rows that were read may be sent before them, and then
the snapshot undoes it.

| here | there |
| --- | --- |
| `createTable schema`           | `CreateTable`, by anyone |
| `enter`, `apply`, `submit`     | `Commit` up to its batch, write by write; the wait for the batch changes nothing here |
| `publish now`, `finish`        | one `PublishEvent`, and the rest of `Commit` |
| `pop`                          | `events_.pop()` in `DeliveryLoop` |
| `process`                      | `ProcessEvent`, as far as this client is concerned |
| `sendEvent`, `sent`            | one frame of `OnChangefeedEvent`, and back to the queue |
| `subscribe`                    | `Subscribe` and the confirmation (`websocket_server.cpp:1020-1028`) |
| `getTable`, `scan`             | the two halves of `ExecuteSelect`: `GetTable` waits for `tables_mutex_`, `Scan` only for the table |
| `sendInitialState`             | the rest of `SendInitialState`; without a WHERE clause no row is left out |

`writes` and `handled` are history variables: the writes applied and the events processed so far.
-/
namespace OriginDB

open JsonDoc Machine

/-- A `Commit` that succeeds. -/
structure Success (env : Env) where
  start : Engine
  txn : Txn
  clock : Nat → UInt64
  final : Engine
  entries : List WALEntry
  events : List ChangefeedEvent
  submitted : commit env true clock start txn = .submitted final entries events

/-- The tables after each of its writes. -/
def Success.stages {env : Env} (c : Success env) : List (RowVersion × Engine) :=
  OriginDB.stages env c.txn.timestamp c.clock 0 c.start c.txn.writeSet

inductive CommitThread (env : Env) where
  | free (e : Engine)
  | applying (c : Success env) (applied : Nat)
  | publishing (e : Engine) (todo : List ChangefeedEvent)

inductive DeliveryThread where
  | waiting
  | popped (ev : ChangefeedEvent)
  | sending (evs : List ChangefeedEvent)
deriving DecidableEq

inductive SubscriberThread where
  | idle
  | subscribed (id : Bytes)
  | holding (id : Bytes)
  /-- What `Scan` gave, and how many writes had been applied then. -/
  | read (f : InitialState) (rows : List (Bytes × Row)) (asOf : Nat)
  | done
deriving DecidableEq

/-- The client, its subscription text, and the server's own subscription to the changefeed. -/
structure Party where
  clientId : Bytes
  query : Bytes
  feedId : Bytes

structure Session (env : Env) where
  commits : CommitThread env
  feed : Feed := {}
  delivery : DeliveryThread := .waiting
  manager : SqlSubscriptionManager := {}
  subscriber : SubscriberThread := .idle
  frames : List Frame := []
  writes : Nat := 0
  handled : Nat := 0

namespace Session

inductive Label where
  | createTable (schema : TableSchema)
  | enter (txn : Txn) (clock : Nat → UInt64)
  | apply
  | submit
  | publish (now : UInt64)
  | finish
  | pop
  | process
  | sendEvent
  | sent
  | subscribe
  | getTable
  | scan
  | sendInitialState

variable {env : Env}

/-- The tables as a reader finds them. -/
def tables (o : Session env) : Tables :=
  match o.commits with
  | .free e | .publishing e _ => e.tables
  | .applying c n => (atEnd c.start (c.stages.take n)).tables

/-- `tables_mutex_` is held. -/
def locked (o : Session env) : Bool :=
  match o.commits with
  | .applying _ _ => true
  | _ => false

/-- What `ProcessEvent` has for this client. -/
def eventsFor (env : Env) (m : SqlSubscriptionManager) (client : Bytes) (ev : ChangefeedEvent) : List ChangefeedEvent :=
  (m.processEvent env ev).filterMap fun p => if p.1 = client then some p.2 else none

/-- The table the SQL engine selects from. -/
def selectedTable (query : Bytes) : Option Bytes :=
  (SqlParser.parse query).bind fun stmt => if stmt.type = .select then some stmt.tableName else none

/-- `SendWebSocketFrame` with the text of a document. -/
def send (o : Session env) (f : Frame) : List Frame := if f.prints env.toJsonLib then o.frames ++ [f] else o.frames

/-- The engine `CreateTable` leaves. -/
def created (J : JsonLib) (e : Engine) (schema : TableSchema) : Engine :=
  match OriginDB.createTable J e schema with
  | .exists => e
  | .threw e' | .logged e' _ => e'

section
variable (maxLag : Nat) (who : Party)

def step (o : Session env) : Label → Option (Session env)
  | .createTable schema =>
    match o.commits with
    | .free e => some { o with commits := .free (created env.toJsonLib e schema) }
    | .applying _ _ => none
    | .publishing e todo => some { o with commits := .publishing (created env.toJsonLib e schema) todo }
  | .enter txn clock =>
    match o.commits with
    | .free e =>
      match h : OriginDB.commit env true clock e txn with
      | .submitted final entries events => some { o with commits := .applying ⟨e, txn, clock, final, entries, events, h⟩ 0 }
      | _ => none
    | _ => none
  | .apply =>
    match o.commits with
    | .applying c n =>
      if n < c.stages.length then some { o with commits := .applying c (n + 1), writes := o.writes + 1 } else none
    | _ => none
  | .submit =>
    match o.commits with
    | .applying c n => if n = c.stages.length then some { o with commits := .publishing c.final c.events } else none
    | _ => none
  | .publish now =>
    match o.commits with
    | .publishing e (ev :: todo) =>
      some { o with commits := .publishing e todo, feed := o.feed.publishEvent maxLag ev now }
    | _ => none
  | .finish =>
    match o.commits with
    | .publishing e [] => some { o with commits := .free e }
    | _ => none
  | .pop =>
    match o.delivery, o.feed.events with
    | .waiting, ev :: rest => some { o with delivery := .popped ev, feed := { o.feed with events := rest } }
    | _, _ => none
  | .process =>
    match o.delivery with
    | .popped ev => some { o with
        delivery := .sending (eventsFor env o.manager who.clientId ev), handled := o.handled + 1 }
    | _ => none
  | .sendEvent =>
    match o.delivery with
    | .sending (ev :: rest) =>
      some { o with delivery := .sending rest, frames := o.send (.changefeedEvent who.feedId ev) }
    | _ => none
  | .sent =>
    match o.delivery with
    | .sending [] => some { o with delivery := .waiting }
    | _ => none
  | .subscribe =>
    match o.subscriber with
    | .idle =>
      match o.manager.subscribe who.clientId who.query with
      | (some id, m) => some { o with manager := m, subscriber := .subscribed id }
      | (none, _) => none
    | _ => none
  | .getTable =>
    match o.subscriber, selectedTable who.query with
    | .subscribed id, some t =>
      if o.locked then none
      -- a table that is not there is an `initial_state_error`
      else some { o with subscriber := if o.tables[t]?.isSome then .holding id else .done }
    | _, _ => none
  | .scan =>
    match o.subscriber, selectedTable who.query with
    | .holding id, some t => o.tables[t]?.map fun tab => { o with
        subscriber := .read
          { subscriptionId := id, sql := who.query
            columns := tab.schema.columns.map fun c => ⟨c.name, SqlEngine.dataTypeToString c.type, c.nullable⟩
            rows := (tab.scan [] []).map Prod.snd }
          (tab.scan [] []) o.writes }
    | _, _ => none
  | .sendInitialState =>
    match o.subscriber with
    | .read f _ _ => some { o with subscriber := .done, frames := o.send (.initialState f) }
    | _ => none

end

/-! ## Converging -/

/-- The client's rows, from the frames that were sent to it. -/
def client (o : Session env) : ClientRows := Client.applyAll env.toJsonLib o.frames

/-- No `Commit` is running. -/
def idle (o : Session env) : Bool :=
  match o.commits with
  | .free _ => true
  | _ => false

/-- All events are delivered, too, and the snapshot has been sent. -/
def Settled (o : Session env) : Prop :=
  o.idle = true ∧ o.feed.events = [] ∧ o.delivery = .waiting ∧ o.subscriber = .done

instance (o : Session env) : Decidable (Settled o) := inferInstanceAs (Decidable (_ ∧ _))

/-- **The client has exactly the rows of the table.** -/
def Converged (t : Bytes) (o : Session env) : Prop := ∀ k, Option.Rel Shows (rowOf o.tables t k) o.client[k]?

/-- The event whose frame is next. -/
def nextEvent (o : Session env) : Option ChangefeedEvent :=
  match o.delivery with
  | .sending evs => evs.head?
  | _ => none

/-- The snapshot that was read and not yet sent, its rows, and how many writes had been applied then. -/
def unsent (o : Session env) : Option (InitialState × List (Bytes × Row) × Nat) :=
  match o.subscriber with
  | .read f rows asOf => some (f, rows, asOf)
  | _ => none

/-- Nothing overtakes the snapshot: between reading the table and sending it, no event of a later write is
sent for a key that was read. Besides, every frame can be printed. -/
def InOrder (who : Party) (o : Session env) : Label → Prop
  | .sendEvent => ∀ ev ∈ o.nextEvent, (Frame.changefeedEvent who.feedId ev).prints env.toJsonLib = true ∧
      ∀ r ∈ o.unsent, o.handled ≤ r.2.2 ∨ r.2.1.lookup ev.key = none
  | .sendInitialState => ∀ r ∈ o.unsent, (Frame.initialState r.1).prints env.toJsonLib = true
  | _ => True

instance (who : Party) (o : Session env) (l : Label) : Decidable (InOrder who o l) :=
  match l with
  | .sendEvent => inferInstanceAs (Decidable (∀ ev ∈ o.nextEvent,
      (Frame.changefeedEvent who.feedId ev).prints env.toJsonLib = true ∧
      ∀ r ∈ o.unsent, o.handled ≤ r.2.2 ∨ r.2.1.lookup ev.key = none))
  | .sendInitialState => inferInstanceAs (Decidable (∀ r ∈ o.unsent, (Frame.initialState r.1).prints env.toJsonLib = true))
  | .createTable _ | .enter _ _ | .apply | .submit | .publish _ | .finish | .pop | .process | .sent | .subscribe | .getTable
  | .scan => isTrue trivial

end Session

/-! ## A successful `Commit`, write by write -/

/-- The event is that of the write that left this version. -/
structure Carries (J : JsonLib) (ev : ChangefeedEvent) (v : RowVersion) : Prop where
  table : ev.table = v.table
  key : ev.key = v.key
  sets : Sets J ev v.row

section Writes
variable {env : Env} {ts : UInt64} {clock : Nat → UInt64} {i : Nat} {e e' : Engine} {ws : List WriteOperation}
  {entries : List WALEntry} {events : List ChangefeedEvent}

theorem sets_eventOf {J : JsonLib} {w : WriteOperation} {old : Option Row} {ev : ChangefeedEvent} (now : UInt64)
    (h : EventOf J w old ev) : Sets J ev (rowStep now w old) := by
  have hname := h.operation
  have hnew := h.newValue
  by_cases hop : w.op = .delete
  · have hr : rowStep now w old = none := by cases old <;> simp [rowStep, hop]
    rw [hr]
    show ev.operation = _
    rw [hname, hop]
    rfl
  · obtain ⟨r, hr, hs⟩ := serializeRow_rowStep J now hop old
    rw [if_neg hop] at hnew
    rw [hr]
    refine ⟨?_, hs.trans hnew⟩
    rw [hname]
    cases hw : w.op with
    | insert => exact Or.inl rfl
    | update => exact Or.inr rfl
    | delete => exact absurd hw hop

/-- **One event for each stage.** -/
theorem carries_stages (h : applyWrites env true ts clock i e ws = .done e' entries events) :
    List.Forall₂ (fun p ev => Carries env.toJsonLib ev p.1) (stages env ts clock i e ws) events := by
  induction ws generalizing i e entries events with
  | nil =>
    simp only [applyWrites, Applied.done.injEq] at h
    obtain ⟨-, -, rfl⟩ := h
    exact .nil
  | cons w ws ih =>
    simp only [applyWrites] at h
    split at h
    · cases h
    · rename_i e₂ old hw
      split at h
      · cases h
      · rename_i evs hevs
        split at h
        · rename_i hrest
          cases h
          obtain ⟨ev, rfl, hof⟩ := eventOf_writeEvent hevs
          have hrow := applyWrite_rowOf hw w.tableName w.row.key
          rw [if_pos ⟨rfl, rfl⟩, ← applyWrite_old hw] at hrow
          rw [stages, hw]
          simp only [hevs]
          refine .cons ⟨hof.table, hof.key, ?_⟩ (ih hrest)
          rw [hrow]
          exact sets_eventOf _ hof
        · cases h
        · cases h

/-- One more stage changes one key. -/
theorem rowOf_stage {n : Nat} {p : RowVersion × Engine} (h : (stages env ts clock i e ws)[n]? = some p) (t k : Bytes) :
    rowOf p.2.tables t k =
      if p.1.on t k then p.1.row else rowOf (atEnd e ((stages env ts clock i e ws).take n)).tables t k := by
  induction ws generalizing i e n with
  | nil => simp [stages] at h
  | cons w ws ih =>
    rw [stages] at h ⊢
    cases hw : applyWrite e w (clock i) with
    | none => simp [hw] at h
    | some q =>
      obtain ⟨e₂, old⟩ := q
      rw [hw] at h
      simp only at h ⊢
      cases n with
      | zero =>
        simp only [List.getElem?_cons_zero, Option.some.injEq] at h
        rw [← h, List.take_zero]
        have hrow := applyWrite_rowOf hw t k
        by_cases hon : w.tableName = t ∧ w.row.key = k
        · rw [if_pos (by simpa [RowVersion.on] using hon), hon.1, hon.2]
        · rw [if_neg (by simpa [RowVersion.on] using hon)]
          rw [if_neg hon] at hrow
          exact hrow
      | succ n =>
        rw [List.getElem?_cons_succ] at h
        rw [List.take_succ_cons, atEnd_cons]
        cases hev : writeEvent env true ts w old (clock i) with
        | none => simp [hev] at h
        | some evs =>
          rw [hev] at h
          exact ih h

theorem atEnd_concat (l : List (RowVersion × Engine)) (p : RowVersion × Engine) : atEnd e (l ++ [p]) = p.2 := by
  rw [atEnd, List.foldl_append]
  rfl

theorem wellKeyed_stages (h : WellKeyed e.tables) (n : Nat) :
    WellKeyed (atEnd e ((stages env ts clock i e ws).take n)).tables := by
  induction ws generalizing i e n with
  | nil => simpa [stages, atEnd] using h
  | cons w ws ih =>
    rw [stages]
    cases hw : applyWrite e w (clock i) with
    | none => simpa [atEnd] using h
    | some q =>
      obtain ⟨e₂, old⟩ := q
      have h₂ := h.applyWrite hw
      cases n with
      | zero => simpa [atEnd] using h
      | succ n =>
        rw [List.take_succ_cons, atEnd_cons]
        simp only
        cases writeEvent env true ts w old (clock i) with
        | none => simpa [atEnd] using h₂
        | some evs => exact ih h₂ n

end Writes

theorem Session.created_tables (J : JsonLib) (e : Engine) (schema : TableSchema) :
    (created J e schema).tables = e.tables ∨
    e.tables[schema.name]? = none ∧ (created J e schema).tables = e.tables.insert schema.name { schema := schema } := by
  unfold created OriginDB.createTable
  by_cases hsome : e.tables[schema.name]?.isSome = true
  · rw [if_pos hsome]
    exact Or.inl rfl
  · rw [if_neg hsome]
    refine Or.inr ⟨by simpa using hsome, ?_⟩
    cases serializeSchema J schema <;> rfl

/-- A new table has no rows. -/
theorem Session.rowOf_created (J : JsonLib) (e : Engine) (schema : TableSchema) (t : Bytes) :
    rowOf (created J e schema).tables t = rowOf e.tables t := by
  funext k
  rcases created_tables J e schema with h | ⟨hnone, h⟩
  · rw [h]
  · rw [h, rowOf, rowOf, OrdMap.getElem?_insert]
    split
    · subst t
      rw [hnone]
      exact Std.ExtTreeMap.getElem?_empty
    · rfl

theorem Session.wellKeyed_created {e : Engine} (h : WellKeyed e.tables) (J : JsonLib) (schema : TableSchema) :
    WellKeyed (created J e schema).tables := by
  rcases created_tables J e schema with hsame | ⟨-, hnew⟩
  · rw [hsame]
    exact h
  · rw [hnew]
    exact h.insert rfl fun k r hr => by simp at hr

namespace Success

variable {env : Env} (c : Success env)

theorem applied : applyWrites env true c.txn.timestamp c.clock 0 c.start c.txn.writeSet = .done c.final c.entries c.events :=
  commit_spec.1 _ _ _ c.submitted

theorem carries : List.Forall₂ (fun p ev => Carries env.toJsonLib ev p.1) c.stages c.events := carries_stages c.applied

theorem length_stages : c.stages.length = c.events.length := c.carries.length_eq

theorem final_eq : c.final = atEnd c.start c.stages := by
  rw [stages, atEnd_stages, c.applied]
  rfl

end Success

namespace Session

/-! ## What the manager has for the client -/

/-- The client has no subscription yet, and the next number is free. -/
structure Absent (m : SqlSubscriptionManager) (client : Bytes) : Prop where
  others : ∀ (id : Bytes) (sub : SqlSubscription), m.subscriptions[id]? = some sub → sub.clientId ≠ client
  indexed : ∀ (t : Bytes) (ids : StrMap Unit), m.tableIndex[t]? = some ids →
    ∀ id : Bytes, ids[id]? = some () → m.subscriptions[id]?.isSome = true
  allIndexed : ∀ id : Bytes, m.allTablesIndex[id]? = some () → m.subscriptions[id]?.isSome = true
  fresh : m.subscriptions[m.generateSubscriptionId.1]? = none

section Manager
variable {env : Env} {m : SqlSubscriptionManager} {client t : Bytes}

/-- What one candidate means for the client. -/
def wanted (env : Env) (m : SqlSubscriptionManager) (client : Bytes) (ev : ChangefeedEvent) (p : Bytes × Unit) :
    Option ChangefeedEvent :=
  m.subscriptions[p.1]?.bind fun sub =>
    if sub.matchesEvent env.toJsonLib ev ∧ sub.clientId = client then some (sub.filterEvent env.toJsonLib ev) else none

theorem eventsFor_eq (env : Env) (m : SqlSubscriptionManager) (client : Bytes) (ev : ChangefeedEvent) :
    eventsFor env m client ev =
      (env.order.list (m.tableIndex[ev.table]?.getD ∅)).filterMap (wanted env m client ev) ++
      (env.order.list m.allTablesIndex).filterMap (wanted env m client ev) := by
  rw [eventsFor, SqlSubscriptionManager.processEvent, List.filterMap_filterMap, ← List.filterMap_append]
  refine List.filterMap_congr fun p _ => ?_
  simp only [wanted, SqlSubscription.matchesEvent]
  cases m.subscriptions[p.1]? with
  | none => rfl
  | some sub =>
    simp only [Option.bind_some]
    split
    · rename_i hm
      simp [hm]
    · rename_i hm
      simp [hm]

theorem wanted_eq_none {ev : ChangefeedEvent} {p : Bytes × Unit}
    (h : ∀ sub, m.subscriptions[p.1]? = some sub → sub.clientId ≠ client) : wanted env m client ev p = none := by
  unfold wanted
  cases hs : m.subscriptions[p.1]? with
  | none => rfl
  | some sub => simp [h sub hs]

theorem Absent.eventsFor (h : Absent m client) (ev : ChangefeedEvent) : eventsFor env m client ev = [] := by
  have hnone : ∀ l : List (Bytes × Unit), l.filterMap (wanted env m client ev) = [] := fun l =>
    List.filterMap_eq_nil_iff.2 fun p _ => wanted_eq_none (h.others p.1)
  rw [eventsFor_eq, hnone, hnone]
  rfl

/-- The manager once the client has subscribed to the table. -/
theorem subscribe_selectAll (h : IsName t) (m : SqlSubscriptionManager) (client : Bytes) :
    m.subscribe client (selectAll t) = (some m.generateSubscriptionId.1, { m with
      nextSubscriptionId := m.nextSubscriptionId + 1
      tableIndex := m.tableIndex.insert t ((m.tableIndex[t]?.getD ∅).insert m.generateSubscriptionId.1 ())
      subscriptions := m.subscriptions.insert m.generateSubscriptionId.1
        { id := m.generateSubscriptionId.1, clientId := client, type := .selectAll, tableName := t }
      clientSubscriptions := m.clientSubscriptions.insert client
        ((m.clientSubscriptions[client]?.getD []) ++ [m.generateSubscriptionId.1]) }) := by
  simp only [SqlSubscriptionManager.subscribe, h.parse_subscription]
  rfl

/-- **The events of the table**, each once, and no others. -/
theorem Absent.eventsFor_subscribed (h : Absent m client) (ht : IsName t) (ev : ChangefeedEvent) :
    Session.eventsFor env (m.subscribe client (selectAll t)).2 client ev = if ev.table = t then [ev] else [] := by
  have hfresh := h.fresh
  have hsubs := congrArg SqlSubscriptionManager.subscriptions (congrArg Prod.snd (subscribe_selectAll ht m client))
  have hindex := congrArg SqlSubscriptionManager.tableIndex (congrArg Prod.snd (subscribe_selectAll ht m client))
  have hall := congrArg SqlSubscriptionManager.allTablesIndex (congrArg Prod.snd (subscribe_selectAll ht m client))
  simp only at hsubs hindex hall
  generalize (m.subscribe client (selectAll t)).2 = m' at hsubs hindex hall ⊢
  generalize m.generateSubscriptionId.1 = id at hfresh hsubs hindex
  rw [eventsFor_eq]
  -- nobody but the new subscription wants it for this client
  have hother : ∀ p : Bytes × Unit, p.1 ≠ id → wanted env m' client ev p = none := by
    intro p hp
    refine wanted_eq_none fun sub hsub => ?_
    rw [hsubs, OrdMap.getElem?_insert, if_neg (Ne.symm hp)] at hsub
    exact h.others p.1 sub hsub
  have hwithout : ∀ ids : StrMap Unit, (∀ id' : Bytes, ids[id']? = some () → m.subscriptions[id']?.isSome = true) →
      (env.order.list ids).filterMap (wanted env m' client ev) = [] := by
    intro ids hids
    refine List.filterMap_eq_nil_iff.2 fun p hp => hother p ?_
    rintro rfl
    have hmem := Std.ExtTreeMap.mem_toList_iff_getElem?_eq_some.1 ((env.order.perm ids).mem_iff.1 hp)
    have hsome := hids p.1 hmem
    rw [hfresh] at hsome
    cases hsome
  rw [hall, hwithout _ h.allIndexed, List.append_nil, hindex, OrdMap.getElem?_insert]
  by_cases hev : ev.table = t
  · rw [if_pos hev.symm, if_pos hev, Option.getD_some]
    have hself : wanted env m' client ev (id, ()) = some ev := by
      simp [wanted, hsubs, SqlSubscription.matchesEvent, SqlSubscription.matchesColumns, SqlSubscription.filterEvent, hev]
    have hperm := ((env.order.perm ((m.tableIndex[t]?.getD ∅).insert id ())).trans
      (OrdMap.toList_insert_perm ())).filterMap (wanted env m' client ev)
    have hrest : ((m.tableIndex[t]?.getD ∅).erase id).toList.filterMap (wanted env m' client ev) = [] := by
      refine List.filterMap_eq_nil_iff.2 fun p hp => hother p ?_
      rintro rfl
      have hmem := Std.ExtTreeMap.mem_toList_iff_getElem?_eq_some.1 hp
      rw [OrdMap.getElem?_erase, if_pos rfl] at hmem
      cases hmem
    rw [List.filterMap_cons, hself, hrest] at hperm
    exact List.perm_singleton.1 hperm
  · rw [if_neg (Ne.symm hev), if_neg hev]
    refine hwithout _ ?_
    cases hi : m.tableIndex[ev.table]? with
    | none =>
      intro id' hid'
      simp at hid'
    | some ids => exact h.indexed _ ids hi

end Manager

end Session

end OriginDB
