import OriginDB.Changefeed.Session
import OriginDB.Lib.Replica
/-!
# A subscriber converges (`websocket_server.cpp:702-768, 1019-1211`)

`Session.subscriber_converges`: a client that subscribes to `SELECT * FROM t` ends with exactly the rows of
the table, whatever the order of the commits, the deliveries and the three steps of its own thread, as long as
no event overtakes the snapshot. The argument is that of `Lib/Replica.lean`: a session is seen as the
rows of the table, the events on their way and what the client has (`Traffic`), and a step of any thread is
one of the steps of a replica.
-/
namespace OriginDB

open JsonDoc Machine Replica

/-! ## What is on its way -/

/-- A session as the client's table sees it: its rows, the events in the hands of the delivery thread and
those behind them, as they were buffered, and what the client has. -/
structure Traffic where
  rows : Bytes → Option Row
  hand : List ChangefeedEvent
  trace : List ChangefeedEvent
  handled : Nat
  writes : Nat
  client : ClientRows

/-- The events of one table. -/
def about (t : Bytes) (evs : List ChangefeedEvent) : List ChangefeedEvent := evs.filter fun ev => ev.table = t

@[simp] theorem about_nil (t : Bytes) : about t [] = [] := rfl

@[simp] theorem about_append (t : Bytes) (l l' : List ChangefeedEvent) : about t (l ++ l') = about t l ++ about t l' :=
  List.filter_append _ _

theorem about_cons (t : Bytes) (ev : ChangefeedEvent) (l : List ChangefeedEvent) :
    about t (ev :: l) = about t [ev] ++ about t l := by
  rw [← about_append]
  rfl

theorem about_singleton (t : Bytes) (ev : ChangefeedEvent) : about t [ev] = if ev.table = t then [ev] else [] := by
  by_cases h : ev.table = t <;> simp [about, h]

theorem about_unstamped (t : Bytes) (l : List ChangefeedEvent) :
    (about t l).map ChangefeedEvent.unstamped = about t (l.map ChangefeedEvent.unstamped) := by
  rw [about, about, List.filter_map]
  rfl

namespace Traffic

/-- Everything on its way for the table. -/
def pending (t : Bytes) (x : Traffic) : List ChangefeedEvent := about t (x.hand ++ x.trace)

/-- What of it is older than a snapshot, and what is not. -/
def older (t : Bytes) (x : Traffic) (asOf : Nat) : List ChangefeedEvent :=
  if x.handled ≤ asOf then about t (x.hand ++ x.trace.take (asOf - x.handled)) else []

def newer (t : Bytes) (x : Traffic) (asOf : Nat) : List ChangefeedEvent :=
  if x.handled ≤ asOf then about t (x.trace.drop (asOf - x.handled)) else about t (x.hand ++ x.trace)

theorem older_append_newer (t : Bytes) (x : Traffic) (asOf : Nat) : x.older t asOf ++ x.newer t asOf = x.pending t := by
  unfold older newer pending
  split
  · rw [← about_append, List.append_assoc, List.take_append_drop]
  · rfl

/-- The client as a replica. -/
def replica (x : Traffic) (k : Bytes) : Option Json := x.client[k]?

/-- A snapshot on its way. -/
structure Snapshot (t : Bytes) (x : Traffic) (f : InitialState) (rows : List (Bytes × Row)) (asOf : Nat) : Prop where
  awaits : Awaits ChangefeedEvent.key Shows x.rows (fun k => rows.lookup k) x.replica (x.older t asOf) (x.newer t asOf)
  distinct : OrdMap.Distinct rows
  keyed : ∀ p ∈ rows, p.2.key = p.1
  frame : f.rows = rows.map Prod.snd
  asOf_le : asOf ≤ x.writes

/-- What holds at each point of the subscriber's thread. -/
def Phase (t : Bytes) (x : Traffic) : SubscriberThread → Prop
  | .idle => x.client = ∅ ∧ x.hand = []
  | .subscribed _ | .holding _ => Gathers ChangefeedEvent.key Shows x.rows x.replica (x.pending t)
  | .read f rows asOf => x.Snapshot t f rows asOf
  | .done => Follows ChangefeedEvent.key Shows x.rows x.replica (x.pending t)

structure Inv (J : JsonLib) (t : Bytes) (sub : SubscriberThread) (x : Traffic) : Prop where
  count : x.handled + x.trace.length = x.writes
  current : Current ChangefeedEvent.key (Sets J) x.rows (x.pending t)
  phase : x.Phase t sub

section Steps
variable {J : JsonLib} {t : Bytes} {sub : SubscriberThread} {x x' : Traffic} {u : ChangefeedEvent}

/-! ### A write -/

/-- The table after a write, and its event behind the others. -/
structure Writes (J : JsonLib) (t : Bytes) (u : ChangefeedEvent) (x x' : Traffic) : Prop where
  rows : u.table = t → ∃ v, Sets J u v ∧ ∀ k, x'.rows k = if u.key = k then v else x.rows k
  same : u.table ≠ t → x'.rows = x.rows
  trace : x'.trace = x.trace ++ [u]
  writes : x'.writes = x.writes + 1
  hand : x'.hand = x.hand
  handled : x'.handled = x.handled
  client : x'.client = x.client

theorem Writes.pending (h : Writes J t u x x') : x'.pending t = x.pending t ++ about t [u] := by
  rw [Traffic.pending, Traffic.pending, h.hand, h.trace, ← List.append_assoc, about_append]

theorem Writes.older (h : Writes J t u x x') {asOf : Nat} (hle : asOf ≤ x.handled + x.trace.length) :
    x'.older t asOf = x.older t asOf ∧ x'.newer t asOf = x.newer t asOf ++ about t [u] := by
  simp only [Traffic.older, Traffic.newer, h.hand, h.trace, h.handled]
  split
  · rw [List.take_append_of_le_length (by omega), List.drop_append_of_le_length (by omega)]
    exact ⟨rfl, about_append _ _ _⟩
  · rw [← List.append_assoc, about_append]
    exact ⟨rfl, rfl⟩

theorem Writes.replica (h : Writes J t u x x') : x'.replica = x.replica := by
  funext k
  rw [Traffic.replica, Traffic.replica, h.client]

theorem Inv.write (h : Inv J t sub x) (hw : Writes J t u x x') : Inv J t sub x' := by
  have hcount : x'.handled + x'.trace.length = x'.writes := by
    rw [hw.handled, hw.trace, hw.writes, ← h.count, List.length_append, List.length_singleton, Nat.add_assoc]
  by_cases ht : u.table = t
  · obtain ⟨v, hv, hrows⟩ := hw.rows ht
    have habout : about t [u] = [u] := by rw [about_singleton, if_pos ht]
    refine ⟨hcount, ?_, ?_⟩
    · rw [hw.pending, habout]
      exact h.current.write hv hrows
    · cases sub with
      | idle =>
        obtain ⟨hc, hh⟩ := h.phase
        exact ⟨hw.client.trans hc, hw.hand.trans hh⟩
      | subscribed id | holding id =>
        rw [Phase, hw.pending, hw.replica, habout]
        exact Gathers.write h.phase hrows
      | read f rows asOf =>
        have hs : x.Snapshot t f rows asOf := h.phase
        obtain ⟨hold, hnew⟩ := hw.older (h.count.symm ▸ hs.asOf_le)
        refine ⟨?_, hs.distinct, hs.keyed, hs.frame, by rw [hw.writes]; exact Nat.le_succ_of_le hs.asOf_le⟩
        rw [hold, hnew, hw.replica, habout]
        exact hs.awaits.write hrows
      | done =>
        rw [Phase, hw.pending, hw.replica, habout]
        exact Follows.write h.phase hrows
  · have hrows := hw.same ht
    have habout : about t [u] = [] := by rw [about_singleton, if_neg ht]
    refine ⟨hcount, ?_, ?_⟩
    · rw [hw.pending, habout, List.append_nil, hrows]
      exact h.current
    · cases sub with
      | idle =>
        obtain ⟨hc, hh⟩ := h.phase
        exact ⟨hw.client.trans hc, hw.hand.trans hh⟩
      | subscribed id | holding id | done =>
        rw [Phase, hw.pending, hw.replica, habout, List.append_nil, hrows]
        exact h.phase
      | read f rows asOf =>
        have hs : x.Snapshot t f rows asOf := h.phase
        obtain ⟨hold, hnew⟩ := hw.older (h.count.symm ▸ hs.asOf_le)
        refine ⟨?_, hs.distinct, hs.keyed, hs.frame, by rw [hw.writes]; exact Nat.le_succ_of_le hs.asOf_le⟩
        rw [hold, hnew, hw.replica, habout, List.append_nil, hrows]
        exact hs.awaits

/-! ### The delivery thread -/

/-- `ProcessEvent` has taken the next event in hand, if the client wants it. -/
structure Processes (t : Bytes) (sub : SubscriberThread) (u : ChangefeedEvent) (x x' : Traffic) : Prop where
  trace : x.trace = u :: x'.trace
  empty : x.hand = []
  hand : x'.hand = if sub = .idle then [] else about t [u]
  handled : x'.handled = x.handled + 1
  rows : x'.rows = x.rows
  writes : x'.writes = x.writes
  client : x'.client = x.client

theorem about_about (t : Bytes) (l : List ChangefeedEvent) : about t (about t l) = about t l := by
  simp [about]

theorem Processes.pending (h : Processes t sub u x x') (hsub : sub ≠ .idle) : x'.pending t = x.pending t := by
  rw [Traffic.pending, Traffic.pending, h.hand, h.trace, h.empty, if_neg hsub, List.nil_append, about_append, about_about,
    ← about_cons]

theorem Processes.older (h : Processes t sub u x x') (hsub : sub ≠ .idle) (asOf : Nat) :
    x'.older t asOf = x.older t asOf ∧ x'.newer t asOf = x.newer t asOf := by
  simp only [Traffic.older, Traffic.newer, h.hand, h.trace, h.empty, h.handled, if_neg hsub, List.nil_append]
  rcases Nat.lt_trichotomy x.handled asOf with hlt | heq | hgt
  · obtain ⟨d, rfl⟩ : ∃ d, asOf = x.handled + 1 + d := ⟨asOf - x.handled - 1, by omega⟩
    have h₁ : x.handled + 1 + d - (x.handled + 1) = d := by omega
    have h₂ : x.handled + 1 + d - x.handled = d + 1 := by omega
    rw [if_pos (by omega), if_pos (by omega), if_pos (by omega), if_pos (by omega), h₁, h₂, List.take_succ_cons,
      List.drop_succ_cons, about_append, about_about, ← about_cons]
    exact ⟨rfl, rfl⟩
  · simp only [heq, if_neg (Nat.not_succ_le_self asOf), if_pos (Nat.le_refl asOf), Nat.sub_self, List.take_zero,
      List.drop_zero, about_append, about_about]
    exact ⟨about_nil t, (about_cons t u x'.trace).symm⟩
  · rw [if_neg (by omega), if_neg (by omega), if_neg (by omega), if_neg (by omega), about_append, about_about, ← about_cons]
    exact ⟨rfl, rfl⟩

theorem Inv.process (h : Inv J t sub x) (hp : Processes t sub u x x') : Inv J t sub x' := by
  have hcount : x'.handled + x'.trace.length = x'.writes := by
    have := h.count
    rw [hp.trace, List.length_cons] at this
    rw [hp.handled, hp.writes]
    omega
  have hreplica : x'.replica = x.replica := by
    funext k
    rw [Traffic.replica, Traffic.replica, hp.client]
  by_cases hsub : sub = .idle
  · -- an event nobody has subscribed to is dropped
    subst hsub
    obtain ⟨hc, -⟩ := h.phase
    have hhand : x'.hand = [] := by rw [hp.hand, if_pos rfl]
    refine ⟨hcount, ?_, hp.client.trans hc, hhand⟩
    have hcur := h.current
    rw [Traffic.pending, hp.empty, hp.trace, List.nil_append, about_cons, about_singleton] at hcur
    rw [Traffic.pending, hhand, List.nil_append, hp.rows]
    split at hcur
    · exact hcur.tail
    · exact hcur
  · refine ⟨hcount, by rw [hp.pending hsub, hp.rows]; exact h.current, ?_⟩
    cases sub with
    | idle => exact absurd rfl hsub
    | subscribed id | holding id | done =>
      rw [Phase, hp.pending hsub, hp.rows, hreplica]
      exact h.phase
    | read f rows asOf =>
      have hs : x.Snapshot t f rows asOf := h.phase
      obtain ⟨hold, hnew⟩ := hp.older hsub asOf
      refine ⟨?_, hs.distinct, hs.keyed, hs.frame, by rw [hp.writes]; exact hs.asOf_le⟩
      rw [hold, hnew, hp.rows, hreplica]
      exact hs.awaits

/-- A frame with the event in hand has been sent. -/
structure Sends (J : JsonLib) (u : ChangefeedEvent) (x x' : Traffic) : Prop where
  hand : x.hand = u :: x'.hand
  client : x'.client = Client.applyEvent J x.client u
  trace : x'.trace = x.trace
  handled : x'.handled = x.handled
  rows : x'.rows = x.rows
  writes : x'.writes = x.writes

theorem Inv.sendEvent (h : Inv J t sub x) (hs : Sends J u x x') (ht : u.table = t)
    (hok : ∀ f rows asOf, sub = .read f rows asOf → x.handled ≤ asOf ∨ rows.lookup u.key = none) : Inv J t sub x' := by
  have happlies : Applies ChangefeedEvent.key (Sets J) Shows u x.replica x'.replica := by
    obtain ⟨hself, hother⟩ := Client.applyEvent_applies J x.client u
    constructor
    · intro v hv
      rw [Traffic.replica, hs.client]
      exact hself v hv
    · intro k hk
      rw [Traffic.replica, Traffic.replica, hs.client]
      exact hother k hk
  have hpending : x.pending t = u :: x'.pending t := by
    rw [Traffic.pending, Traffic.pending, hs.hand, hs.trace, List.cons_append, about_cons, about_singleton, if_pos ht]
    rfl
  have hcur := h.current
  rw [hpending] at hcur
  refine ⟨by rw [hs.handled, hs.trace, hs.writes]; exact h.count, by rw [hs.rows]; exact hcur.tail, ?_⟩
  cases sub with
  | idle =>
    obtain ⟨-, hh⟩ := h.phase
    rw [hs.hand] at hh
    cases hh
  | subscribed id | holding id =>
    have hg : Gathers ChangefeedEvent.key Shows x.rows x.replica (x.pending t) := h.phase
    rw [hpending] at hg
    rw [Phase, hs.rows]
    exact hg.receive hcur happlies
  | done =>
    have hf : Follows ChangefeedEvent.key Shows x.rows x.replica (x.pending t) := h.phase
    rw [hpending] at hf
    rw [Phase, hs.rows]
    exact hf.receive hcur happlies
  | read f rows asOf =>
    have hsnap : x.Snapshot t f rows asOf := h.phase
    refine ⟨?_, hsnap.distinct, hsnap.keyed, hsnap.frame, by rw [hs.writes]; exact hsnap.asOf_le⟩
    have ha := hsnap.awaits
    rw [hs.rows]
    -- it is older than the snapshot, or the snapshot has nothing under its key
    by_cases hle : x.handled ≤ asOf
    · have hold : x.older t asOf = u :: x'.older t asOf := by
        simp only [Traffic.older, hs.handled, hs.trace, hs.hand, if_pos hle, List.cons_append]
        rw [about_cons, about_singleton, if_pos ht]
        rfl
      have hnew : x'.newer t asOf = x.newer t asOf := by
        simp only [Traffic.newer, hs.handled, hs.trace, if_pos hle]
      rw [hold] at ha
      rw [hnew]
      refine ha.receive_old ?_ happlies
      rw [List.cons_append, ← hnew, older_append_newer]
      exact hcur
    · have hold : x.older t asOf = [] ∧ x'.older t asOf = [] := by
        rw [Traffic.older, Traffic.older, hs.handled, if_neg hle, if_neg hle]
        exact ⟨rfl, rfl⟩
      have hnew : x.newer t asOf = u :: x'.newer t asOf := by
        simp only [Traffic.newer, hs.handled, hs.trace, hs.hand, if_neg hle, List.cons_append]
        rw [about_cons, about_singleton, if_pos ht]
        rfl
      rw [hold.1, hnew] at ha
      rw [hold.2]
      refine ha.receive_new ?_ happlies ((hok f rows asOf rfl).resolve_left hle)
      rw [← hnew, ← List.nil_append (x.newer t asOf), ← hold.1, older_append_newer, hpending]
      exact hcur

/-! ### The subscriber's thread -/

theorem Inv.subscribe (h : Inv J t .idle x) (id : Bytes) : Inv J t (.subscribed id) x := by
  obtain ⟨hc, -⟩ := h.phase
  refine ⟨h.count, h.current, fun k _ => Or.inl ?_⟩
  rw [Traffic.replica, hc]
  exact Std.ExtTreeMap.getElem?_empty

/-- There is no table, and so no snapshot to wait for. -/
theorem Inv.missing {id : Bytes} (h : Inv J t (.subscribed id) x) (hrows : ∀ k, x.rows k = none) : Inv J t .done x := by
  refine ⟨h.count, h.current, fun k hk => ?_⟩
  have hg : Gathers ChangefeedEvent.key Shows x.rows x.replica (x.pending t) := h.phase
  rcases hg k hk with hc | hrel
  · rw [hc, hrows]
    exact .none
  · exact hrel

/-- The table is read: all that is on its way is older. -/
theorem Inv.scan {id : Bytes} {f : InitialState} {rows : List (Bytes × Row)} (h : Inv J t (.holding id) x)
    (hrows : ∀ k, rows.lookup k = x.rows k) (hd : OrdMap.Distinct rows) (hk : ∀ p ∈ rows, p.2.key = p.1)
    (hf : f.rows = rows.map Prod.snd) : Inv J t (.read f rows x.writes) x := by
  have hg : Gathers ChangefeedEvent.key Shows x.rows x.replica (x.pending t) := h.phase
  have hle : x.handled ≤ x.writes := by
    rw [← h.count]
    exact Nat.le_add_right _ _
  have hlen : x.writes - x.handled = x.trace.length := by
    rw [← h.count, Nat.add_sub_cancel_left]
  have hnew : x.newer t x.writes = [] := by
    rw [Traffic.newer, if_pos hle, hlen, List.drop_length]
    rfl
  have hold : x.older t x.writes = x.pending t := by
    rw [← older_append_newer t x x.writes, hnew, List.append_nil]
  refine ⟨h.count, h.current, ?_, hd, hk, hf, Nat.le_refl _⟩
  rw [hold, hnew, funext hrows]
  exact hg.snapshot

theorem Inv.sendInitialState {f : InitialState} {rows : List (Bytes × Row)} {asOf : Nat} (h : Inv J t (.read f rows asOf) x) :
    Inv J t .done { x with client := Client.applyFrame J x.client (.initialState f) } := by
  have hs : x.Snapshot t f rows asOf := h.phase
  obtain ⟨hset, hkeep⟩ := Client.applyFrame_initialState J x.client hs.distinct hs.keyed hs.frame
  have hfollows := hs.awaits.arrive hset hkeep
  rw [older_append_newer] at hfollows
  exact ⟨h.count, h.current, hfollows⟩

end Steps

end Traffic

namespace Session

/-! ## A session as traffic -/

section Traffic
variable {env : Env} {t : Bytes} {o o' : Session env}

/-- The events in the hands of the delivery thread. -/
def inHand (o : Session env) : List ChangefeedEvent :=
  match o.delivery with
  | .sending evs => evs
  | _ => []

/-- The events behind them: popped, queued, and buffered by the running `Commit`. -/
def behind (o : Session env) : List ChangefeedEvent :=
  (match o.delivery with
    | .popped ev => [ev]
    | _ => []) ++ (o.feed.events ++
  match o.commits with
  | .free _ => []
  | .applying c n => c.events.take n
  | .publishing _ todo => todo)

/-- What the client's table sees of it. An event is the same before and after it got its stamps. -/
def traffic (t : Bytes) (o : Session env) : Traffic where
  rows := rowOf o.tables t
  hand := o.inHand.map ChangefeedEvent.unstamped
  trace := o.behind.map ChangefeedEvent.unstamped
  handled := o.handled
  writes := o.writes
  client := o.client

/-- The tables before the running `Commit`. -/
def base (o : Session env) : Tables :=
  match o.commits with
  | .free e | .publishing e _ => e.tables
  | .applying c _ => c.start.tables

theorem wellKeyed_tables (h : WellKeyed o.base) : WellKeyed o.tables := by
  unfold base at h
  unfold tables
  cases hc : o.commits with
  | free e | publishing e todo => simpa [hc] using h
  | applying c n =>
    rw [hc] at h
    exact wellKeyed_stages h n

/-- **What every run keeps.** -/
structure Inv (who : Party) (t : Bytes) (m₀ : SqlSubscriptionManager) (o : Session env) : Prop where
  keyed : WellKeyed o.base
  manager : o.manager = if o.subscriber = .idle then m₀ else (m₀.subscribe who.clientId (selectAll t)).2
  mine : ∀ ev ∈ o.inHand, ev.table = t
  traffic : Traffic.Inv env.toJsonLib t o.subscriber (o.traffic t)

end Traffic

/-! ## Every step -/

section Steps
variable {env : Env} {maxLag : Nat} {who : Party} {t : Bytes} {m₀ : SqlSubscriptionManager} {o o' : Session env}

/-- A step of the committer, or of the delivery thread, that the client's table takes no notice of. -/
theorem Inv.unnoticed (h : Inv who t m₀ o) (hkeyed : WellKeyed o'.base) (hrows : rowOf o'.tables t = rowOf o.tables t)
    (hbehind : o'.behind.map ChangefeedEvent.unstamped = o.behind.map ChangefeedEvent.unstamped)
    (hhand : o'.inHand = o.inHand) (hsame : o'.manager = o.manager ∧ o'.subscriber = o.subscriber ∧ o'.frames = o.frames ∧
      o'.handled = o.handled ∧ o'.writes = o.writes) : Inv who t m₀ o' := by
  obtain ⟨hm, hs, hf, hh, hw⟩ := hsame
  have htraffic : o'.traffic t = o.traffic t := by
    simp only [Session.traffic, client, hrows, hbehind, hhand, hf, hh, hw]
  refine ⟨hkeyed, ?_, ?_, ?_⟩
  · rw [hm, hs]
    exact h.manager
  · rw [hhand]
    exact h.mine
  · rw [hs, htraffic]
    exact h.traffic

theorem Inv.createTable {schema : TableSchema} (h : Inv who t m₀ o) (hstep : step maxLag who o (.createTable schema) = some o') :
    Inv who t m₀ o' := by
  have hkeyed := h.keyed
  cases hc : o.commits with
  | applying c n => simp [step, hc] at hstep
  | free e | publishing e todo =>
    simp only [step, hc, Option.some.injEq] at hstep
    subst hstep
    simp only [base, hc] at hkeyed
    refine h.unnoticed (wellKeyed_created hkeyed _ schema) ?_ ?_ rfl ⟨rfl, rfl, rfl, rfl, rfl⟩
    · simp only [tables, hc]
      exact rowOf_created _ e schema t
    · simp only [behind, hc]

theorem Inv.enter {txn : Txn} {clock : Nat → UInt64} (h : Inv who t m₀ o)
    (hstep : step maxLag who o (.enter txn clock) = some o') : Inv who t m₀ o' := by
  have hkeyed := h.keyed
  cases hc : o.commits with
  | applying c n | publishing e todo => simp [step, hc] at hstep
  | free e =>
    simp only [step, hc] at hstep
    split at hstep
    · cases hstep
      simp only [base, hc] at hkeyed
      refine h.unnoticed hkeyed ?_ ?_ rfl ⟨rfl, rfl, rfl, rfl, rfl⟩
      · simp only [tables, hc, List.take_zero]
        rfl
      · simp only [behind, hc, List.take_zero]
    · cases hstep

theorem Inv.submit (h : Inv who t m₀ o) (hstep : step maxLag who o .submit = some o') : Inv who t m₀ o' := by
  have hkeyed := wellKeyed_tables h.keyed
  cases hc : o.commits with
  | free e | publishing e todo => simp [step, hc] at hstep
  | applying c n =>
    simp only [step, hc] at hstep
    split at hstep
    · rename_i hn
      cases hstep
      have hfinal : o.tables = c.final.tables := by
        rw [c.final_eq, tables, hc, hn]
        simp only [List.take_length]
      rw [hfinal] at hkeyed
      refine h.unnoticed hkeyed (by rw [hfinal]; rfl) ?_ rfl ⟨rfl, rfl, rfl, rfl, rfl⟩
      simp only [behind, hc, hn, c.length_stages, List.take_length]
    · cases hstep

theorem Inv.publish {now : UInt64} (h : Inv who t m₀ o) (hstep : step maxLag who o (.publish now) = some o') :
    Inv who t m₀ o' := by
  have hkeyed := h.keyed
  cases hc : o.commits with
  | free e | applying c n => simp [step, hc] at hstep
  | publishing e todo =>
    cases todo with
    | nil => simp [step, hc] at hstep
    | cons ev todo =>
      simp only [step, hc, Option.some.injEq] at hstep
      subst hstep
      simp only [base, hc] at hkeyed
      refine h.unnoticed hkeyed (by simp only [tables, hc]) ?_ rfl ⟨rfl, rfl, rfl, rfl, rfl⟩
      -- the stamps are all that `PublishEvent` changes
      simp only [behind, hc, Feed.publishEvent, List.map_append, List.map_cons, List.append_assoc,
        List.cons_append, List.nil_append, ChangefeedEvent.unstamped]

theorem Inv.finish (h : Inv who t m₀ o) (hstep : step maxLag who o .finish = some o') : Inv who t m₀ o' := by
  have hkeyed := h.keyed
  cases hc : o.commits with
  | free e | applying c n => simp [step, hc] at hstep
  | publishing e todo =>
    cases todo with
    | cons ev todo => simp [step, hc] at hstep
    | nil =>
      simp only [step, hc, Option.some.injEq] at hstep
      subst hstep
      simp only [base, hc] at hkeyed
      exact h.unnoticed hkeyed (by simp only [tables, hc]) (by simp only [behind, hc]) rfl ⟨rfl, rfl, rfl, rfl, rfl⟩

theorem Inv.pop (h : Inv who t m₀ o) (hstep : step maxLag who o .pop = some o') : Inv who t m₀ o' := by
  have hkeyed := h.keyed
  simp only [step] at hstep
  split at hstep
  · rename_i ev rest hd he
    cases hstep
    refine h.unnoticed hkeyed rfl ?_ (by simp only [inHand, hd]) ⟨rfl, rfl, rfl, rfl, rfl⟩
    simp only [behind, hd, he, List.cons_append, List.nil_append]
  · cases hstep

theorem Inv.sent (h : Inv who t m₀ o) (hstep : step maxLag who o .sent = some o') : Inv who t m₀ o' := by
  have hkeyed := h.keyed
  simp only [step] at hstep
  split at hstep
  · rename_i hd
    cases hstep
    exact h.unnoticed hkeyed rfl (by simp only [behind, hd]) (by simp only [inHand, hd]) ⟨rfl, rfl, rfl, rfl, rfl⟩
  · cases hstep

theorem Inv.apply (h : Inv who t m₀ o) (hstep : step maxLag who o .apply = some o') : Inv who t m₀ o' := by
  have hkeyed := h.keyed
  cases hc : o.commits with
  | free e | publishing e todo => simp [step, hc] at hstep
  | applying c n =>
    simp only [step, hc] at hstep
    split at hstep
    · rename_i hn
      cases hstep
      simp only [base, hc] at hkeyed
      -- the write, and the event that was buffered for it
      have hn' : n < c.events.length := c.length_stages ▸ hn
      have hcarries := (List.forall₂_iff_get.1 c.carries).2 n hn hn'
      have hstage := rowOf_stage (List.getElem?_eq_getElem hn) t
      have htake : c.stages.take (n + 1) = c.stages.take n ++ [c.stages[n]] := List.take_succ_eq_append_getElem hn
      have htake' : c.events.take (n + 1) = c.events.take n ++ [c.events[n]] := List.take_succ_eq_append_getElem hn'
      simp only [List.get_eq_getElem] at hcarries
      generalize c.stages[n] = p at hcarries hstage htake
      generalize c.events[n] = ev at hcarries htake'
      refine ⟨hkeyed, h.manager, h.mine, h.traffic.write (u := ev.unstamped) ⟨?_, ?_, ?_, rfl, rfl, rfl, rfl⟩⟩
      · intro hev
        refine ⟨p.1.row, hcarries.sets, fun k => ?_⟩
        have hon : p.1.on t k = decide (ev.key = k) := by
          rw [RowVersion.on, ← hcarries.table, ← hcarries.key]
          simp [show ev.table = t from hev]
        simp only [Session.traffic, tables, hc, htake, atEnd_concat]
        rw [hstage k, hon]
        simp only [decide_eq_true_eq]
        rfl
      · intro hev
        funext k
        have hon : p.1.on t k = false := by
          rw [RowVersion.on, ← hcarries.table]
          simp [show ev.table ≠ t from hev]
        simp only [Session.traffic, tables, hc, htake, atEnd_concat]
        rw [hstage k, hon, if_neg Bool.false_ne_true]
        rfl
      · simp only [Session.traffic, behind, hc, htake', List.map_append, List.map_cons, List.map_nil, List.append_assoc]
    · cases hstep

theorem Inv.process (h : Inv who t m₀ o) (hm : Absent m₀ who.clientId) (ht : IsName t)
    (hstep : step maxLag who o .process = some o') : Inv who t m₀ o' := by
  simp only [step] at hstep
  split at hstep
  · rename_i ev hd
    cases hstep
    have hfor : eventsFor env o.manager who.clientId ev = if o.subscriber = .idle then [] else about t [ev] := by
      rw [h.manager]
      split
      · exact hm.eventsFor ev
      · rw [about_singleton]
        exact hm.eventsFor_subscribed ht ev
    refine ⟨h.keyed, h.manager, ?_, h.traffic.process (u := ev.unstamped) ?_⟩
    · intro ev' hev'
      simp only [inHand, hfor] at hev'
      split at hev'
      · simp at hev'
      · simpa [about] using (List.mem_filter.1 hev').2
    · refine ⟨?_, ?_, ?_, rfl, rfl, rfl, rfl⟩
      · simp only [Session.traffic, behind, hd, List.cons_append, List.nil_append, List.map_cons]
      · simp only [Session.traffic, inHand, hd, List.map_nil]
      · simp only [Session.traffic, inHand, hfor]
        by_cases hs : o.subscriber = .idle
        · rw [if_pos hs, if_pos hs]
          rfl
        · rw [if_neg hs, if_neg hs]
          exact about_unstamped t [ev]
  · cases hstep

theorem Inv.sendEvent (h : Inv who t m₀ o) (hok : InOrder who o .sendEvent)
    (hstep : step maxLag who o .sendEvent = some o') : Inv who t m₀ o' := by
  simp only [step] at hstep
  split at hstep
  · rename_i ev rest hd
    cases hstep
    obtain ⟨hprints, hread⟩ := hok ev (by simp only [nextEvent, hd]; rfl)
    have hmine : ∀ ev' ∈ ev :: rest, ev'.table = t := by
      have := h.mine
      simpa only [inHand, hd] using this
    refine ⟨h.keyed, h.manager, fun ev' hev' => hmine ev' (List.mem_cons_of_mem _ hev'), ?_⟩
    refine h.traffic.sendEvent (u := ev.unstamped) ⟨?_, ?_, ?_, rfl, rfl, rfl⟩ (hmine ev (by simp)) ?_
    · simp only [Session.traffic, inHand, hd, List.map_cons]
    · simp only [Session.traffic, client, send, if_pos hprints, Client.applyAll, List.foldl_append, List.foldl_cons,
        List.foldl_nil]
      rfl
    · simp only [Session.traffic, behind, hd]
    · intro f rows asOf (hs : o.subscriber = .read f rows asOf)
      exact hread (f, rows, asOf) (by simp only [unsent, hs]; rfl)
  · cases hstep

theorem Inv.subscribe (h : Inv who t m₀ o) (hq : who.query = selectAll t) (hstep : step maxLag who o .subscribe = some o') :
    Inv who t m₀ o' := by
  simp only [step] at hstep
  split at hstep
  · rename_i hs
    split at hstep
    · rename_i id m hm
      cases hstep
      have hmanager := h.manager
      have htraffic := h.traffic
      rw [hs] at htraffic
      rw [if_pos hs] at hmanager
      refine ⟨h.keyed, ?_, h.mine, htraffic.subscribe id⟩
      rw [if_neg (by simp), ← hq, ← hmanager, hm]
    · cases hstep
  · cases hstep

/-- The manager's state stays, whatever the subscriber's thread does next. -/
theorem Inv.manager_of_ne (h : Inv who t m₀ o) (hs : o.subscriber ≠ .idle) :
    ∀ sub : SubscriberThread, sub ≠ .idle → o.manager = if sub = .idle then m₀ else (m₀.subscribe who.clientId (selectAll t)).2 := by
  intro sub hsub
  have hm := h.manager
  rw [if_neg hs] at hm
  rw [if_neg hsub, hm]

theorem selectedTable_selectAll (h : IsName t) : selectedTable (selectAll t) = some t := by
  rw [selectedTable, h.parse_select]
  rfl

theorem Inv.getTable (h : Inv who t m₀ o) (ht : IsName t) (hq : who.query = selectAll t)
    (hstep : step maxLag who o .getTable = some o') : Inv who t m₀ o' := by
  simp only [step, hq, selectedTable_selectAll ht] at hstep
  split at hstep
  · rename_i id t' hs heq
    cases heq
    split at hstep
    · cases hstep
    · cases hstep
      have hm := h.manager_of_ne (by rw [hs]; simp)
      have htraffic := h.traffic
      rw [hs] at htraffic
      by_cases htab : o.tables[t]?.isSome = true
      · simp only [if_pos htab]
        exact ⟨h.keyed, hm _ (by simp), h.mine, htraffic.count, htraffic.current, htraffic.phase⟩
      · simp only [if_neg htab]
        refine ⟨h.keyed, hm _ (by simp), h.mine, htraffic.missing fun k => ?_⟩
        have hnone : o.tables[t]? = none := by simpa using htab
        simp only [Session.traffic, rowOf, hnone, Option.bind_none]
  · cases hstep

theorem Inv.scan (h : Inv who t m₀ o) (ht : IsName t) (hq : who.query = selectAll t)
    (hstep : step maxLag who o .scan = some o') : Inv who t m₀ o' := by
  simp only [step, hq, selectedTable_selectAll ht] at hstep
  split at hstep
  · rename_i id t' hs heq
    cases heq
    obtain ⟨tab, htab, he⟩ := Option.map_eq_some_iff.1 hstep
    cases he
    have hm := h.manager_of_ne (by rw [hs]; simp)
    have htraffic := h.traffic
    rw [hs] at htraffic
    rw [MemTable.scan_all]
    refine ⟨h.keyed, hm _ (by simp), h.mine, htraffic.scan ?_ (OrdMap.distinct_toList _) ?_ rfl⟩
    · intro k
      rw [OrdMap.lookup_toList]
      simp only [Session.traffic, rowOf, htab, Option.bind_some]
    · intro p hp
      exact (wellKeyed_tables h.keyed).key t tab htab p.1 p.2 (Std.ExtTreeMap.mem_toList_iff_getElem?_eq_some.1 hp)
  · cases hstep

theorem Inv.sendInitialState (h : Inv who t m₀ o) (hok : InOrder who o .sendInitialState)
    (hstep : step maxLag who o .sendInitialState = some o') : Inv who t m₀ o' := by
  simp only [step] at hstep
  split at hstep
  · rename_i f rows asOf hs
    cases hstep
    have hprints := hok (f, rows, asOf) (by simp only [unsent, hs]; rfl)
    have hm := h.manager_of_ne (by rw [hs]; simp)
    have htraffic := h.traffic
    rw [hs] at htraffic
    have hclient : Client.applyAll env.toJsonLib (o.send (.initialState f)) =
        Client.applyFrame env.toJsonLib o.client (.initialState f) := by
      simp only [client, send, if_pos hprints, Client.applyAll, List.foldl_append, List.foldl_cons, List.foldl_nil]
    refine ⟨h.keyed, hm _ (by simp), h.mine, ?_⟩
    have hdone := htraffic.sendInitialState
    rw [Session.traffic, client, hclient]
    exact hdone
  · cases hstep

theorem Inv.step (h : Inv who t m₀ o) (hm : Absent m₀ who.clientId) (ht : IsName t) (hq : who.query = selectAll t) {l : Label}
    (hok : InOrder who o l) (hstep : Session.step maxLag who o l = some o') : Inv who t m₀ o' := by
  cases l with
  | createTable schema => exact h.createTable hstep
  | enter txn clock => exact h.enter hstep
  | apply => exact h.apply hstep
  | submit => exact h.submit hstep
  | publish now => exact h.publish hstep
  | finish => exact h.finish hstep
  | pop => exact h.pop hstep
  | process => exact h.process hm ht hstep
  | sendEvent => exact h.sendEvent hok hstep
  | sent => exact h.sent hstep
  | subscribe => exact h.subscribe hq hstep
  | getTable => exact h.getTable ht hq hstep
  | scan => exact h.scan ht hq hstep
  | sendInitialState => exact h.sendInitialState hok hstep

end Steps

/-! ## Whole runs -/

/-- Nothing is running, and everything that was published has been delivered. -/
def boot (env : Env) (e : Engine) (feed : Feed) (m : SqlSubscriptionManager) : Session env where
  commits := .free e
  feed := { feed with events := [] }
  manager := m

theorem Inv.boot {env : Env} {e : Engine} (hk : WellKeyed e.tables) (who : Party) (t : Bytes) (feed : Feed)
    (m : SqlSubscriptionManager) : Inv who t m (boot env e feed m) where
  keyed := hk
  manager := (if_pos rfl).symm
  mine := fun ev hev => by simp [inHand, Session.boot] at hev
  traffic := ⟨rfl, fun k ev hev => by simp [Traffic.pending, Session.traffic, inHand, behind, Session.boot, lastOn] at hev, rfl, rfl⟩

theorem Inv.converged {env : Env} {who : Party} {t : Bytes} {m₀ : SqlSubscriptionManager} {o : Session env}
    (h : Inv who t m₀ o) (hset : Settled o) : Converged t o := by
  obtain ⟨hidle, hfeed, hwaiting, hdone⟩ := hset
  have htraffic := h.traffic
  rw [hdone] at htraffic
  have hpending : (o.traffic t).pending t = [] := by
    cases hc : o.commits with
    | free e => simp [Traffic.pending, Session.traffic, inHand, behind, hc, hfeed, hwaiting]
    | applying c n | publishing e todo => simp [idle, hc] at hidle
  have hfollows : Follows ChangefeedEvent.key Shows (o.traffic t).rows (o.traffic t).replica ((o.traffic t).pending t) :=
    htraffic.phase
  rw [hpending] at hfollows
  exact fun k => hfollows k rfl

/-- **A subscriber converges**: once all events are delivered, the client has exactly the rows of the
table, if nothing overtook the snapshot. -/
theorem subscriber_converges (env : Env) (maxLag : Nat) (who : Party) (t : Bytes) (e : Engine) (feed : Feed)
    (m : SqlSubscriptionManager) (ls : List Label) (o : Session env) (ht : IsName t) (hq : who.query = selectAll t)
    (hm : Absent m who.clientId) (hk : WellKeyed e.tables)
    (hok : Allowed (step maxLag who) (InOrder who) (boot env e feed m) ls)
    (hrun : run (step maxLag who) (boot env e feed m) ls = some o) (hset : Settled o) : Converged t o := by
  have hinv : Inv who t m o :=
    run_invariant (Inv who t m) (fun _ _ _ h hl hstep => h.step hm ht hq hl hstep) (Inv.boot hk who t feed m) hok hrun
  exact hinv.converged hset

/-! ## One row, and an UPDATE of it -/

def rowAText (v : Int64) : Bytes := str "\x7b\"columns\":\x7b\"a\":" ++ str (toString v.toInt) ++ str "\x7d,\"key\":\"k\"\x7d"

/-- The UPDATE of `k` from `a = 5` to `a = 1`. -/
def updateA : Txn := { timestamp := 1, writeSet := [⟨.update, str "t", rowA 1⟩] }

def updateAEvent : ChangefeedEvent :=
  { offset := 1, transactionId := str "1", table := str "t", operation := str "UPDATE", key := str "k"
    oldValue := rowAText 5, newValue := rowAText 1, timestamp := 0 }

/-- What is read before it. -/
def initialA : InitialState :=
  { subscriptionId := str "sql_sub_1", sql := selectAll (str "t"), columns := [], rows := [rowA 5] }

/-- The library on the two rows and the two frames. -/
def sessionEnv : Env where
  toJsonLib := .ofTable
    [(rowJson (rowA 5), rowAText 5), (rowJson (rowA 1), rowAText 1),
     (eventJson (str "sub-1") updateAEvent, str "\x7b\"key\":\"k\",\"new_value\":" ++ Server.quoted (rowAText 1) ++
      str ",\"offset\":1,\"old_value\":" ++ Server.quoted (rowAText 5) ++
      str ",\"operation\":\"UPDATE\",\"subscription_id\":\"sub-1\",\"table\":\"t\",\"timestamp\":0,\"transaction_id\":\"1\"," ++
      str "\"type\":\"sql_changefeed_event\"\x7d"),
     (initialA.json, str "\x7b\"columns\":[],\"execution_time_ms\":0,\"rows\":[\x7b\"data\":\x7b\"a\":5\x7d,\"key\":\"k\"," ++
      str "\"timestamp\":0,\"version\":0\x7d],\"rows_count\":1,\"sql\":\"SELECT * FROM t\"," ++
      str "\"subscription_id\":\"sql_sub_1\",\"type\":\"initial_state\"\x7d")] (by decide +kernel)
  order := .sorted

def subscriberA : Party := ⟨str "c", selectAll (str "t"), str "sub-1"⟩

/-- The table is read, then the UPDATE is committed. -/
def readThenUpdated : List Label :=
  [.subscribe, .getTable, .scan, .enter updateA fun _ => 0, .apply, .submit, .publish 0, .finish]

def delivered : List Label := [.pop, .process, .sendEvent, .sent]

def startA : Session sessionEnv := boot sessionEnv { tables := oneRow (.int64 5) } {} {}

theorem absent_empty (client : Bytes) : Absent {} client where
  others := by simp
  indexed := by simp
  allIndexed := by simp
  fresh := by simp

/-- The snapshot goes out before the event. -/
theorem subscriber_converges_inTime :
    ∃ o, run (step 100000 subscriberA) startA (readThenUpdated ++ [.sendInitialState] ++ delivered) = some o ∧
      o.frames.length = 2 ∧ Converged (str "t") o := by
  have hrun : ∃ o ∈ run (step 100000 subscriberA) startA (readThenUpdated ++ [.sendInitialState] ++ delivered),
      o.frames.length = 2 ∧ Settled o := by
    decide +kernel
  obtain ⟨o, hrun, hframes, hset⟩ := hrun
  exact ⟨o, hrun, hframes, subscriber_converges sessionEnv 100000 subscriberA (str "t") _ {} {} _ o
    ⟨by decide, by decide +kernel⟩ rfl (absent_empty _) (wellKeyed_oneRow _) (by decide +kernel) hrun hset⟩

/-- It goes out after it: the client is left with `a = 5`. -/
theorem subscriber_diverges : ∃ o, run (step 100000 subscriberA) startA (readThenUpdated ++ delivered ++ [.sendInitialState]) = some o ∧
    Settled o ∧ ¬ Converged (str "t") o := by
  have hrun : ∃ o ∈ run (step 100000 subscriberA) startA (readThenUpdated ++ delivered ++ [.sendInitialState]),
      Settled o ∧ ∃ row ∈ rowOf o.tables (str "t") (str "k"), ∃ j ∈ o.client[str "k"]?, ¬ Shows row j := by
    decide +kernel
  obtain ⟨o, hrun, hset, row, hrow, j, hj, hno⟩ := hrun
  refine ⟨o, hrun, hset, fun h => ?_⟩
  have hk := h (str "k")
  rw [Option.mem_def.1 hrow, Option.mem_def.1 hj] at hk
  cases hk with
  | some hshows => exact hno hshows

end Session

end OriginDB
