import OriginDB.Lib.Machine
import OriginDB.Websocket.Identity
/-!
# Generated ids (`HostGenerateId`, `host_functions.cpp:359-369`)

An id is the millisecond of the call, with twenty bits of a counter behind it that all calls of the server share. The
millisecond is that of the call's context, which stays as it is however long the call runs, and `WasmSubscriptionManager` makes
contexts in which it is not set at all. So ids are told apart by the counter alone, as long as it does not go around.

| here | there |
| --- | --- |
| `Origin.context` | the places that build a `ReducerContext` |
| `IdServer`       | `g_id_counter`, and the calls that run |
| `returned`       | history: the ids in the order in which they were generated |
-/
namespace OriginDB

open JsonDoc ByteCodec Machine

namespace Wasm

/-- Who makes a call. -/
inductive Origin where
  | loadModule
  | executeReducer (request : ExecuteReducerRequest)
  | callReducer (sender moduleName : Bytes)
  | tick (moduleName : Bytes)
  | clientConnected (clientId : Bytes)
  | clientDisconnected (clientId : Bytes)
  | executeQuery
  | filter
  | transform
  | initialData

/-- `ReducerContext ctx;` with what was in the memory for its timestamp. -/
def bareContext (senderIdentity : Bytes) (left : Int64) : ReducerContext :=
  { senderIdentity := senderIdentity, timestampMicros := left }

/-- The context of a call: some take the time from `CreateReducerContext`, and some have what is `left` in the memory. -/
def Origin.context (now left : Int64) : Origin → ReducerContext
  -- wasm_engine.cpp:200
  | .loadModule => createReducerContext (str "system") [] now
  -- wasm_service_impl.cpp:288
  | .executeReducer request => Gateway.grpcContext request now
  -- websocket_server.cpp:633
  | .callReducer sender moduleName => { createReducerContext sender sender now with moduleIdentity := moduleName }
  -- tick_scheduler.cpp:79
  | .tick moduleName => { createReducerContext (str "system") [] now with moduleIdentity := moduleName }
  -- wasm_subscription.cpp:217, 249
  | .clientConnected clientId | .clientDisconnected clientId => bareContext clientId left
  -- wasm_subscription.cpp:271, 351, 388, 436
  | .executeQuery | .filter | .transform | .initialData => bareContext [] left

/-- `HostGenerateId` (host_functions.cpp:360): the id and the counter after it. -/
def hostGenerateId (counter : UInt64) (rctx : ReducerContext) : Int64 × UInt64 :=
  let ms := rctx.timestampMicros.toUInt64 / 1000
  (((ms <<< 20) ||| (counter &&& 0xFFFFF)).toInt64, counter + 1)

/-- A call of a module. -/
structure GuestCall where
  rctx : ReducerContext
  running : Bool := true

/-- An id, the call that asked for it and the timestamp of that call. -/
structure ReturnedId where
  call : Nat
  timestampMicros : Int64
  id : Int64

/-- The millisecond of the call. -/
def ReturnedId.millis (r : ReturnedId) : Nat := r.timestampMicros.toUInt64.toNat / 1000

structure IdServer where
  clock : Int64
  idCounter : UInt64 := 0
  calls : List GuestCall := []
  returned : List ReturnedId := []

namespace IdServer

inductive Label where
  | begin (origin : Origin) (now left : Int64)
  /-- `__migrate` comes after `__init` in the same context. -/
  | again (i : Nat)
  | generateId (i : Nat)
  | finish (i : Nat)

def step (s : IdServer) : Label → Option IdServer
  | .begin origin now left =>
    if s.clock ≤ now then some { s with clock := now, calls := s.calls ++ [{ rctx := origin.context now left }] } else none
  | .again i => s.calls[i]?.map fun c => { s with calls := s.calls ++ [{ rctx := c.rctx }] }
  | .generateId i =>
    match s.calls[i]? with
    | some ⟨rctx, true⟩ =>
      let (id, counter) := hostGenerateId s.idCounter rctx
      some { s with idCounter := counter, returned := s.returned ++ [⟨i, rctx.timestampMicros, id⟩] }
    | _ => none
  | .finish i => some { s with calls := s.calls.modify i fun c => { c with running := false } }

/-- All ids are different, and those of one call go up. -/
def Unique (s : IdServer) : Prop := s.returned.Pairwise fun a b => a.id ≠ b.id ∧ (a.call = b.call → a.id < b.id)

/-- Ids whose places are a multiple of `2 ^ 20` apart are from different milliseconds, and the remainders of the places of a
call's ids go up. -/
def Spaced (s : IdServer) : Prop := ∀ (j k : Nat) (a b : ReturnedId), j < k → s.returned[j]? = some a → s.returned[k]? = some b →
  (j % 2 ^ 20 = k % 2 ^ 20 → a.millis % 2 ^ 44 ≠ b.millis % 2 ^ 44) ∧ (a.call = b.call → j % 2 ^ 20 < k % 2 ^ 20)

/-! ## One id -/

section
variable {s s' : IdServer} {a b : ReturnedId} {i j k : Nat}

/-- The bits of an id. -/
theorem toNat_id (ms counter : UInt64) :
    ((ms <<< 20) ||| (counter &&& 0xFFFFF)).toNat = ms.toNat % 2 ^ 44 * 2 ^ 20 + counter.toNat % 2 ^ 20 := by
  have hmask : (0xFFFFF : UInt64).toNat = 2 ^ 20 - 1 := rfl
  have hshift : ms.toNat <<< 20 % 2 ^ 64 = (ms.toNat % 2 ^ 44) <<< 20 := by
    rw [Nat.shiftLeft_eq, Nat.shiftLeft_eq, show (2 : Nat) ^ 64 = 2 ^ 44 * 2 ^ 20 from rfl, Nat.mul_mod_mul_right]
  have hlow : counter.toNat % 2 ^ 20 < 2 ^ 20 := Nat.mod_lt _ (by decide)
  rw [UInt64.toNat_or, UInt64.toNat_and, UInt64.toNat_shiftLeft, hmask, Nat.and_two_pow_sub_one_eq_mod,
    show (20 : UInt64).toNat % 64 = 20 from rfl, hshift, ← Nat.shiftLeft_add_eq_or_of_lt hlow, Nat.shiftLeft_eq]

/-- Below the same millisecond the counter decides. -/
theorem toInt64_lt_iff {x y : UInt64} {m c d : Nat} (hx : x.toNat = m * 2 ^ 20 + c) (hy : y.toNat = m * 2 ^ 20 + d) (hc : c < 2 ^ 20)
    (hd : d < 2 ^ 20) : x.toInt64 < y.toInt64 ↔ c < d := by
  have hint : ∀ z : UInt64, z.toInt64.toInt = if 2 * z.toNat < 2 ^ 64 then (z.toNat : Int) else (z.toNat : Int) - (2 ^ 64 : Nat) := fun z =>
    BitVec.toInt_eq_toNat_cond z.toBitVec
  rw [Int64.lt_iff_toInt_lt, hint, hint, hx, hy]
  split <;> split <;> omega

/-- An id, by its place in the run. -/
def idAt (timestampMicros : Int64) (k : Nat) : Int64 :=
  (hostGenerateId (UInt64.ofNat k) { timestampMicros := timestampMicros }).1

theorem ofNat_mod (k : Nat) : (UInt64.ofNat k).toNat % 2 ^ 20 = k % 2 ^ 20 := by
  rw [UInt64.toNat_ofNat', Nat.mod_mod_of_dvd k (Nat.pow_dvd_pow 2 (by decide))]

/-- The bits of the id in a place. -/
theorem idAt_eq (t : Int64) (k : Nat) : ∃ x : UInt64, idAt t k = x.toInt64 ∧
    x.toNat = t.toUInt64.toNat / 1000 % 2 ^ 44 * 2 ^ 20 + k % 2 ^ 20 := by
  refine ⟨_, rfl, ?_⟩
  rw [toNat_id, ofNat_mod, UInt64.toNat_div]
  rfl

theorem idAt_inj {t t' : Int64} :
    idAt t j = idAt t' k ↔ t.toUInt64.toNat / 1000 % 2 ^ 44 = t'.toUInt64.toNat / 1000 % 2 ^ 44 ∧ j % 2 ^ 20 = k % 2 ^ 20 := by
  obtain ⟨x, hx, hxn⟩ := idAt_eq t j
  obtain ⟨y, hy, hyn⟩ := idAt_eq t' k
  have hj : j % 2 ^ 20 < 2 ^ 20 := Nat.mod_lt _ (by decide)
  have hk : k % 2 ^ 20 < 2 ^ 20 := Nat.mod_lt _ (by decide)
  have hxy : x.toInt64 = y.toInt64 ↔ x.toNat = y.toNat := by
    constructor
    · intro h
      have hback := congrArg Int64.toUInt64 h
      rw [UInt64.toUInt64_toInt64, UInt64.toUInt64_toInt64] at hback
      rw [hback]
    · intro h
      rw [UInt64.toNat_inj.1 h]
  rw [hx, hy, hxy, hxn, hyn]
  omega

theorem idAt_lt {t : Int64} : idAt t j < idAt t k ↔ j % 2 ^ 20 < k % 2 ^ 20 := by
  obtain ⟨x, hx, hxn⟩ := idAt_eq t j
  obtain ⟨y, hy, hyn⟩ := idAt_eq t k
  rw [hx, hy]
  exact toInt64_lt_iff hxn hyn (Nat.mod_lt _ (by decide)) (Nat.mod_lt _ (by decide))

/-! ## Runs -/

def start (clock : Int64) : IdServer := { clock := clock }

/-- The counter has counted the ids, and each is the one of its place, with the timestamp of its call. -/
structure Inv (s : IdServer) : Prop where
  counter : s.idCounter = UInt64.ofNat s.returned.length
  ids : ∀ (k : Nat) (r : ReturnedId), s.returned[k]? = some r → r.id = idAt r.timestampMicros k
  own : ∀ r ∈ s.returned, (s.calls[r.call]?).map (fun c => c.rctx.timestampMicros) = some r.timestampMicros

theorem inv_start (clock : Int64) : Inv (start clock) :=
  ⟨rfl, by simp [start], by simp [start]⟩

/-- The calls keep their contexts, and others come behind them. -/
theorem Inv.mono (h : Inv s) (hcounter : s'.idCounter = s.idCounter) (hreturned : s'.returned = s.returned)
    (hcalls : ∀ (i : Nat) (t : Int64), (s.calls[i]?).map (fun c => c.rctx.timestampMicros) = some t →
      (s'.calls[i]?).map (fun c => c.rctx.timestampMicros) = some t) : Inv s' := by
  refine ⟨by rw [hcounter, hreturned, h.counter], ?_, ?_⟩
  · rw [hreturned]
    exact h.ids
  · rw [hreturned]
    exact fun r hr => hcalls _ _ (h.own r hr)

theorem map_append_of_some {calls : List GuestCall} {c : GuestCall} {t : Int64}
    (h : (calls[i]?).map (fun c => c.rctx.timestampMicros) = some t) :
    ((calls ++ [c])[i]?).map (fun c => c.rctx.timestampMicros) = some t := by
  obtain ⟨d, hd, ht⟩ := Option.map_eq_some_iff.1 h
  have hlt := (List.getElem?_eq_some_iff.1 hd).1
  rw [List.getElem?_append_left hlt, hd, Option.map_some, ht]

theorem Inv.step {l : Label} (h : Inv s) (hstep : step s l = some s') : Inv s' := by
  cases l with
  | begin origin now left =>
    rw [IdServer.step] at hstep
    split at hstep
    · cases hstep
      exact h.mono rfl rfl fun i t ht => map_append_of_some ht
    · cases hstep
  | again i =>
    obtain ⟨c, -, rfl⟩ := Option.map_eq_some_iff.1 hstep
    exact h.mono rfl rfl fun i t ht => map_append_of_some ht
  | finish i =>
    cases hstep
    refine h.mono rfl rfl fun j t ht => ?_
    obtain ⟨c, hc, hct⟩ := Option.map_eq_some_iff.1 ht
    rw [List.getElem?_modify, hc]
    split <;> exact congrArg some hct
  | generateId i =>
    rw [IdServer.step] at hstep
    split at hstep
    · rename_i rctx hcall
      cases hstep
      refine ⟨?_, ?_, ?_⟩
      · simp only [List.length_append, List.length_singleton]
        rw [h.counter, UInt64.ofNat_add]
        rfl
      · intro k r hr
        rcases Nat.lt_or_ge k s.returned.length with hlt | hge
        · rw [List.getElem?_append_left hlt] at hr
          exact h.ids k r hr
        · rw [List.getElem?_append_right hge, List.getElem?_singleton] at hr
          split at hr
          · rename_i hzero
            cases hr
            have hk : k = s.returned.length := by omega
            rw [hk, idAt, ← h.counter]
            rfl
          · cases hr
      · intro r hr
        rcases List.mem_append.1 hr with hold | hnew
        · exact h.own r hold
        · cases List.mem_singleton.1 hnew
          simp only [hcall, Option.map_some]
    · cases hstep

/-- Ids of one call have one timestamp. -/
theorem Inv.timestamp_eq (h : Inv s) (ha : a ∈ s.returned) (hb : b ∈ s.returned) (hcall : a.call = b.call) :
    a.timestampMicros = b.timestampMicros := by
  have hown := h.own a ha
  rw [hcall, h.own b hb] at hown
  exact (Option.some.inj hown).symm

theorem Inv.unique_iff (h : Inv s) : s.Unique ↔ s.Spaced := by
  have hpair : ∀ {j k : Nat} {a b : ReturnedId}, s.returned[j]? = some a → s.returned[k]? = some b →
      ((a.id ≠ b.id ∧ (a.call = b.call → a.id < b.id)) ↔
        (j % 2 ^ 20 = k % 2 ^ 20 → a.millis % 2 ^ 44 ≠ b.millis % 2 ^ 44) ∧ (a.call = b.call → j % 2 ^ 20 < k % 2 ^ 20)) := by
    intro j k a b ha hb
    refine and_congr ?_ (forall_congr' fun hcall => ?_)
    · rw [h.ids j a ha, h.ids k b hb, Ne, idAt_inj, not_and']
      rfl
    · have ht := h.timestamp_eq (List.mem_of_getElem? ha) (List.mem_of_getElem? hb) hcall
      rw [h.ids j a ha, h.ids k b hb, ht, idAt_lt]
  rw [Unique, List.pairwise_iff_getElem]
  constructor
  · intro hall j k a b hjk ha hb
    obtain ⟨hj, rfl⟩ := List.getElem?_eq_some_iff.1 ha
    obtain ⟨hk, rfl⟩ := List.getElem?_eq_some_iff.1 hb
    exact (hpair ha hb).1 (hall j k hj hk hjk)
  · intro hall j k hj hk hjk
    have ha := List.getElem?_eq_getElem hj
    have hb := List.getElem?_eq_getElem hk
    exact (hpair ha hb).2 (hall j k _ _ hjk ha hb)

theorem inv_run {clock : Int64} {ls : List Label} (hrun : run step (start clock) ls = some s) : Inv s := by
  have hok : Allowed step (fun _ _ => True) (start clock) ls := Allowed.of_forall fun _ _ _ => trivial
  exact run_invariant Inv (fun _ _ _ h _ hstep => h.step hstep) (inv_start clock) hok hrun

/-- Up to `2 ^ 20` ids the counter does not go around. -/
theorem spaced_of_few (h : s.returned.length ≤ 2 ^ 20) : s.Spaced := by
  intro j k a b hjk ha hb
  have hk := (List.getElem?_eq_some_iff.1 hb).1
  rw [Nat.mod_eq_of_lt (by omega), Nat.mod_eq_of_lt (by omega)]
  exact ⟨fun heq => absurd heq (by omega), fun _ => hjk⟩

end

/-- **Ids are unique, and go up within a call, exactly when** the counter goes around nowhere between two ids of a call and
between no two ids of one millisecond to the same twenty bits. -/
theorem ids_unique_iff (clock : Int64) (ls : List Label) (s : IdServer) (hrun : run step (start clock) ls = some s) :
    s.Unique ↔ s.Spaced := (inv_run hrun).unique_iff

/-- A tick asks twice, and a client that connects meanwhile, whose context has no timestamp, once. -/
def twoCalls : List Label := [.begin (.tick (str "m")) 1000000 0, .generateId 0, .begin (.clientConnected (str "c")) 1000500 7,
  .generateId 1, .generateId 0, .finish 0, .finish 1]

theorem ids_unique_two_calls : ∃ s, run step (start 0) twoCalls = some s ∧ s.returned.length = 3 ∧ s.Unique := by
  have hrun : ∃ s, run step (start 0) twoCalls = some s ∧ s.returned.length = 3 := ⟨_, rfl, rfl⟩
  obtain ⟨s, hrun, hlength⟩ := hrun
  exact ⟨s, hrun, hlength, (ids_unique_iff 0 twoCalls s hrun).2 (spaced_of_few (by rw [hlength]; decide))⟩

/-- One call asks for `n` ids. -/
def manyIds (n : Nat) : List Label := .begin (.tick (str "m")) 1000000 0 :: List.replicate n (.generateId 0)

theorem run_generate (n : Nat) (s : IdServer) {rctx : ReducerContext} (hcall : s.calls[0]? = some ⟨rctx, true⟩) :
    ∃ s' more, run step s (List.replicate n (.generateId 0)) = some s' ∧ s'.returned = s.returned ++ more ∧ more.length = n ∧
      ∀ r ∈ more, r.call = 0 := by
  induction n generalizing s with
  | zero => exact ⟨s, [], rfl, (List.append_nil _).symm, rfl, by simp⟩
  | succ n ih =>
    let r : ReturnedId := ⟨0, rctx.timestampMicros, (hostGenerateId s.idCounter rctx).1⟩
    let next : IdServer := { s with idCounter := (hostGenerateId s.idCounter rctx).2, returned := s.returned ++ [r] }
    have hstep : step s (.generateId 0) = some next := by
      rw [step, hcall]
    obtain ⟨s', more, hrun, hreturned, hlength, hown⟩ := ih next hcall
    refine ⟨s', r :: more, ?_, ?_, by rw [List.length_cons, hlength], ?_⟩
    · rw [List.replicate_succ, run_cons hstep]
      exact hrun
    · rw [hreturned, List.append_assoc]
      rfl
    · rw [List.forall_mem_cons]
      exact ⟨rfl, hown⟩

/-- A call that asks for `2 ^ 20 + 1` ids gets the first one twice. -/
theorem ids_repeat : ∃ s, run step (start 0) (manyIds (2 ^ 20 + 1)) = some s ∧ ¬ s.Unique := by
  have hbegin : ∃ s, step (start 0) (.begin (.tick (str "m")) 1000000 0) = some s ∧ s.returned = [] ∧
      ∃ rctx, s.calls[0]? = some ⟨rctx, true⟩ := ⟨_, rfl, rfl, _, rfl⟩
  obtain ⟨s₀, hbegin, hnone, rctx, hcall⟩ := hbegin
  obtain ⟨s, more, hrun, hreturned, hlength, hown⟩ := run_generate (2 ^ 20 + 1) s₀ hcall
  rw [hnone, List.nil_append] at hreturned
  have hall : run step (start 0) (manyIds (2 ^ 20 + 1)) = some s := by
    rw [manyIds, run_cons hbegin]
    exact hrun
  refine ⟨s, hall, fun hunique => ?_⟩
  have hspaced := (inv_run hall).unique_iff.1 hunique
  rw [← hreturned] at hlength hown
  have hfirst : 0 < s.returned.length := by omega
  have hlast : 2 ^ 20 < s.returned.length := by omega
  have hsame := hspaced 0 (2 ^ 20) _ _ (by decide) (List.getElem?_eq_getElem hfirst) (List.getElem?_eq_getElem hlast)
  have hcalls : (s.returned[0]).call = (s.returned[2 ^ 20]).call :=
    (hown _ (List.getElem_mem hfirst)).trans (hown _ (List.getElem_mem hlast)).symm
  exact absurd (hsame.2 hcalls) (by decide)

end IdServer

end Wasm

end OriginDB
