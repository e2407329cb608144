import OriginDB.Lib.Json
import OriginDB.Lib.Machine
/-!
# Tokens over the boots of a server (`auth.h`, `auth.cpp`)

Each scope takes its token from the override, else from `tokens.json`, else it is generated (`wanted`). When one is
generated both are written to `tokens.json`, also one that is an override: "nothing is persisted for them" (`:66`) holds
of two overrides, and of one only when the file has the other token (`Covered`).

A boot is what it is given and what the environment does: whether the directory is there or made, `tokens.json` opens,
the temporary file is written and the rename succeeds. A boot that ends in `abort`, an exception or `false` has no
`AuthManager`, and leaves `tokens.json` as it was.
-/
namespace OriginDB

open ByteCodec JsonDoc Machine

/-- `AuthScope` (auth.h:8). -/
inductive AuthScope where
  | client
  | admin
deriving DecidableEq

/-- `AuthManager` (auth.h:16). -/
structure AuthManager where
  adminToken : Bytes
  clientToken : Bytes
deriving DecidableEq

namespace AuthScope

/-- The key in `tokens.json`. -/
def key : AuthScope → Bytes
  | .admin => str "admin_token"
  | .client => str "client_token"

def lead : AuthScope → Bytes
  | .admin => str "odb_admin_"
  | .client => str "odb_client_"

end AuthScope

namespace AuthManager

/-- What a boot is given, and what happens to it. -/
structure Boot where
  adminOverride : Bytes := []
  clientOverride : Bytes := []
  /-- What `RAND_bytes` returns. -/
  adminRandom : Bytes := []
  clientRandom : Bytes := []
  created : Bool := true
  opens : Bool := true
  written : Bool := true
  renamed : Bool := true
deriving DecidableEq

def Boot.override (b : Boot) : AuthScope → Bytes
  | .admin => b.adminOverride
  | .client => b.clientOverride

def Boot.random (b : Boot) : AuthScope → Bytes
  | .admin => b.adminRandom
  | .client => b.clientRandom

/-- What the boot can read of `tokens.json`. -/
def Boot.reads (b : Boot) (file : Option Bytes) : Option Bytes := if b.opens then file else none

def hexDigit (n : UInt8) : UInt8 := if n < 10 then 48 + n else 87 + n

/-- `GenerateToken` (auth.cpp:14). -/
def generateToken (pre random : Bytes) : Bytes := pre ++ random.flatMap fun (b : UInt8) => [hexDigit (b >>> 4), hexDigit (b &&& 0xf)]

/-- `ConstantTimeEquals` (auth.cpp:30). -/
def constantTimeEquals (a b : Bytes) : Bool :=
  if a.length ≠ b.length then false
  else (a.zip b).foldl (fun diff p => diff ||| (p.1 ^^^ p.2)) 0 = (0 : UInt8)

def token (a : AuthManager) : AuthScope → Bytes
  | .admin => a.adminToken
  | .client => a.clientToken

/-- `Check` (auth.cpp:108). -/
def checkScope (a : AuthManager) (token : Bytes) (scope : AuthScope) : Bool :=
  if token = [] then false
  else if constantTimeEquals token a.adminToken then true
  else scope = .client && constantTimeEquals token a.clientToken

def loadToken (doc : Json) (key own : Bytes) : Option Bytes := if own = [] then doc.valueOr key [] else some own

/-- "Load persisted tokens" (auth.cpp:72): `none` is an exception of `doc.value`. -/
def load (J : JsonLib) (file : Option Bytes) (a : AuthManager) : Option AuthManager :=
  match file.bind J.parse with
  | none => some a
  | some doc => do
    let admin ← loadToken doc AuthScope.admin.key a.adminToken
    let client ← loadToken doc AuthScope.client.key a.clientToken
    some { adminToken := admin, clientToken := client }

/-- "Generate whatever is still missing" (auth.cpp:85). -/
def generate (b : Boot) (a : AuthManager) : AuthManager where
  adminToken := if a.adminToken = [] then generateToken AuthScope.admin.lead b.adminRandom else a.adminToken
  clientToken := if a.clientToken = [] then generateToken AuthScope.client.lead b.clientRandom else a.clientToken

def doc (a : AuthManager) : Json :=
  .object [(AuthScope.admin.key, .string a.adminToken), (AuthScope.client.key, .string a.clientToken)]

/-- `Initialize` (auth.cpp:56) on the contents of `tokens.json`, if there is one; and its contents afterwards. -/
def initializeAuth (J : JsonLib) (file : Option Bytes) (b : Boot) : Option AuthManager × Option Bytes :=
  let a : AuthManager := { adminToken := b.adminOverride, clientToken := b.clientOverride }
  if !b.created then (none, file)
  else if a.adminToken ≠ [] ∧ a.clientToken ≠ [] then (some a, file)
  else
    match a.load J (b.reads file) with
    | none => (none, file)
    | some a =>
      if a.adminToken = [] ∨ a.clientToken = [] then
        match J.dump (a.generate b).doc with
        | none => (none, file)
        | some text => if b.written && b.renamed then (some (a.generate b), some text) else (none, file)
      else (some a, file)

/-! ## What a boot does -/

/-- The token of the scope that the file has. -/
def stored (J : JsonLib) (file : Option Bytes) (scope : AuthScope) : Bytes :=
  ((file.bind J.parse).bind fun doc => doc.valueOr scope.key []).getD []


/-- The boot has neither an override nor a stored token of the scope. -/
def Missing (J : JsonLib) (file : Option Bytes) (b : Boot) (scope : AuthScope) : Prop :=
  b.override scope = [] ∧ stored J (b.reads file) scope = []

instance (J : JsonLib) (file : Option Bytes) (b : Boot) (scope : AuthScope) : Decidable (Missing J file b scope) :=
  inferInstanceAs (Decidable (_ ∧ _))

/-- The token of the scope in this boot: the override, else the stored one, else a new one. -/
def wanted (J : JsonLib) (file : Option Bytes) (b : Boot) (scope : AuthScope) : Bytes :=
  if Missing J file b scope then generateToken scope.lead (b.random scope)
  else if b.override scope ≠ [] then b.override scope else stored J (b.reads file) scope

section
variable {J : JsonLib} {file file' : Option Bytes} {b : Boot} {a m : AuthManager} {scope : AuthScope} {text : Bytes}

theorem or_xor_foldl (l : List (UInt8 × UInt8)) (diff : UInt8) :
    l.foldl (fun diff p => diff ||| (p.1 ^^^ p.2)) diff = 0 ↔ diff = 0 ∧ ∀ p ∈ l, p.1 = p.2 := by
  induction l generalizing diff with
  | nil => simp
  | cons p l ih =>
    rw [List.foldl_cons, ih, UInt8.or_eq_zero_iff, UInt8.xor_eq_zero_iff, List.forall_mem_cons, and_assoc]

/-- The comparison is equality. -/
theorem constantTimeEquals_iff {x y : Bytes} : constantTimeEquals x y = true ↔ x = y := by
  unfold constantTimeEquals
  split
  · rename_i hlen
    simp only [Bool.false_eq_true, false_iff]
    exact fun h => hlen (congrArg List.length h)
  · rename_i hlen
    rw [decide_eq_true_eq, or_xor_foldl]
    constructor
    · rintro ⟨-, hall⟩
      refine List.ext_getElem (by omega) fun i hi hi' => ?_
      exact hall (x[i], y[i]) (by rw [← List.getElem_zip (h := by simp; omega)]; exact List.getElem_mem _)
    · rintro rfl
      refine ⟨rfl, fun p hp => ?_⟩
      obtain ⟨i, hi, rfl⟩ := List.getElem_of_mem hp
      simp

theorem checkScope_iff {t : Bytes} : a.checkScope t scope = true ↔ t ≠ [] ∧ (t = a.adminToken ∨ (scope = .client ∧ t = a.clientToken)) := by
  unfold checkScope
  by_cases ht : t = []
  · simp [ht]
  · rw [if_neg ht]
    by_cases hadmin : constantTimeEquals t a.adminToken = true
    · have heq := constantTimeEquals_iff.1 hadmin
      subst heq
      simp [ht, constantTimeEquals_iff]
    · have hne := mt constantTimeEquals_iff.2 hadmin
      simp [ht, hadmin, hne, constantTimeEquals_iff]

/-- A token grants its scope. -/
theorem checkScope_token (h : a.token scope ≠ []) : a.checkScope (a.token scope) scope = true := by
  rw [checkScope_iff]
  cases scope with
  | admin => exact ⟨h, Or.inl rfl⟩
  | client => exact ⟨h, Or.inr ⟨rfl, rfl⟩⟩

/-- Only the two tokens grant anything. -/
theorem token_of_checkScope {t : Bytes} (h : a.checkScope t scope = true) : t ≠ [] ∧ ∃ scope', a.token scope' = t := by
  obtain ⟨hne, rfl | ⟨-, rfl⟩⟩ := checkScope_iff.1 h
  · exact ⟨hne, .admin, rfl⟩
  · exact ⟨hne, .client, rfl⟩

theorem generateToken_ne_nil (scope : AuthScope) (random : Bytes) : generateToken scope.lead random ≠ [] := by
  have hlead : scope.lead ≠ [] := by cases scope <;> decide
  simp [generateToken, hlead]

/-- What is written is read again. -/
theorem stored_doc (h : J.dump m.doc = some text) (scope : AuthScope) : stored J (some text) scope = m.token scope := by
  have hparse : J.parse text = some m.doc := J.parse_dump _ _ h
  rw [stored, Option.bind_some, hparse, Option.bind_some, doc]
  cases scope with
  | admin => rfl
  | client => rfl

theorem stored_none : stored J none scope = [] := rfl

/-- What `load` makes of the two overrides. -/
theorem load_token (h : load J file a = some m) (scope : AuthScope) :
    m.token scope = if a.token scope = [] then stored J file scope else a.token scope := by
  unfold load at h
  cases hdoc : file.bind J.parse with
  | none =>
    rw [hdoc] at h
    cases h
    have hstored : stored J file scope = [] := by rw [stored, hdoc, Option.bind_none]; rfl
    split
    · rw [hstored]
      assumption
    · rfl
  | some doc =>
    simp only [hdoc, Option.bind_eq_bind, Option.bind_eq_some_iff] at h
    obtain ⟨admin, hadmin, client, hclient, hm⟩ := h
    cases hm
    rw [stored, hdoc, Option.bind_some]
    have hown : ∀ {own t : Bytes}, loadToken doc scope.key own = some t →
        t = if own = [] then (doc.valueOr scope.key []).getD [] else own := by
      intro own t ht
      unfold loadToken at ht
      split at ht
      · rw [if_pos ‹_›, ht, Option.getD_some]
      · rw [if_neg ‹_›]
        exact (Option.some.inj ht).symm
    cases scope with
    | admin => exact hown hadmin
    | client => exact hown hclient

theorem generate_token (b : Boot) (a : AuthManager) (scope : AuthScope) :
    (a.generate b).token scope = if a.token scope = [] then generateToken scope.lead (b.random scope) else a.token scope := by
  cases scope <;> rfl

/-- What a boot that succeeds has done. -/
structure Boots (J : JsonLib) (file : Option Bytes) (b : Boot) (m : AuthManager) (file' : Option Bytes) : Prop where
  token : ∀ scope, m.token scope = wanted J file b scope
  wrote : ((∀ scope, ¬ Missing J file b scope) ∧ file' = file) ∨
    ((∃ scope, Missing J file b scope) ∧ ∃ text, file' = some text ∧ J.dump m.doc = some text)

theorem wanted_ne_nil (J : JsonLib) (file : Option Bytes) (b : Boot) (scope : AuthScope) : wanted J file b scope ≠ [] := by
  unfold wanted
  split
  · exact generateToken_ne_nil scope _
  · rename_i hmissing
    split
    · assumption
    · rename_i hno
      exact fun hstored => hmissing ⟨by simpa using hno, hstored⟩

/-- **`Initialize` fails and leaves the file as it was, or does what `Boots` says.** -/
theorem initializeAuth_cases (J : JsonLib) (file : Option Bytes) (b : Boot) :
    (initializeAuth J file b).1 = none ∧ (initializeAuth J file b).2 = file ∨
    ∃ m, (initializeAuth J file b).1 = some m ∧ Boots J file b m (initializeAuth J file b).2 := by
  generalize hres : initializeAuth J file b = res
  unfold initializeAuth at hres
  set a : AuthManager := { adminToken := b.adminOverride, clientToken := b.clientOverride } with ha
  have htoken : ∀ scope, a.token scope = b.override scope := fun scope => by cases scope <;> rfl
  simp only at hres
  split at hres
  · subst hres
    exact Or.inl ⟨rfl, rfl⟩
  split at hres
  · rename_i hboth
    subst hres
    have hno : ∀ scope, b.override scope ≠ [] := fun scope => by
      cases scope with
      | admin => exact hboth.1
      | client => exact hboth.2
    refine Or.inr ⟨a, rfl, fun scope => ?_, Or.inl ⟨fun scope hm => hno scope hm.1, rfl⟩⟩
    rw [wanted, if_neg fun hm => hno scope hm.1, if_pos (hno scope), htoken]
  split at hres
  · subst hres
    exact Or.inl ⟨rfl, rfl⟩
  rename_i m hload
  have hloaded : ∀ scope, m.token scope = if b.override scope = [] then stored J (b.reads file) scope else b.override scope := by
    intro scope
    rw [load_token hload, htoken]
  have hmissing : ∀ scope, m.token scope = [] ↔ Missing J file b scope := by
    intro scope
    rw [hloaded, Missing]
    by_cases ho : b.override scope = [] <;> simp [ho]
  have hkept : ∀ scope, ¬ Missing J file b scope → m.token scope = wanted J file b scope := by
    intro scope hno
    rw [hloaded, wanted, if_neg hno]
    by_cases ho : b.override scope = [] <;> simp [ho]
  split at hres
  · rename_i hsome
    split at hres
    · subst hres
      exact Or.inl ⟨rfl, rfl⟩
    rename_i text hdump
    split at hres
    · subst hres
      refine Or.inr ⟨m.generate b, rfl, fun scope => ?_, Or.inr ⟨?_, text, rfl, hdump⟩⟩
      · rw [generate_token]
        by_cases hm : Missing J file b scope
        · rw [if_pos ((hmissing scope).2 hm), wanted, if_pos hm]
        · rw [if_neg (mt (hmissing scope).1 hm), hkept scope hm]
      · obtain h | h := hsome
        · exact ⟨.admin, (hmissing .admin).1 h⟩
        · exact ⟨.client, (hmissing .client).1 h⟩
    · subst hres
      exact Or.inl ⟨rfl, rfl⟩
  · rename_i hnone
    subst hres
    have hno : ∀ scope, ¬ Missing J file b scope := fun scope hm => by
      have := (hmissing scope).2 hm
      cases scope with
      | admin => exact hnone (Or.inl this)
      | client => exact hnone (Or.inr this)
    exact Or.inr ⟨m, rfl, fun scope => hkept scope (hno scope), Or.inl ⟨hno, rfl⟩⟩

end

/-! ## The boots of one directory -/

/-- The directory, and what has happened on it. -/
structure AuthHistory where
  file : Option Bytes
  /-- The last boot, if it has succeeded, and its manager. -/
  booted : Option (Boot × AuthManager) := none
  /-- The tokens that were generated and persisted. -/
  generated : List (AuthScope × Bytes) := []
deriving DecidableEq

/-- What the boot generates. -/
def generates (J : JsonLib) (file : Option Bytes) (b : Boot) : List (AuthScope × Bytes) :=
  ([.admin, .client].filter fun scope => Missing J file b scope).map fun scope => (scope, generateToken scope.lead (b.random scope))

def boot (J : JsonLib) (s : AuthHistory) (b : Boot) : Option AuthHistory :=
  match initializeAuth J s.file b with
  | (none, file) => some { s with file := file, booted := none }
  | (some m, file) => some { file := file, booted := some (b, m), generated := s.generated ++ generates J s.file b }

/-- No boot that has to generate a token is given the other one as an override. -/
def Covered (J : JsonLib) (s : AuthHistory) (b : Boot) : Prop :=
  ∀ scope scope', Missing J s.file b scope → b.override scope' = []

/-- A file that is there can be opened. -/
def Opens (s : AuthHistory) (b : Boot) : Prop := s.file ≠ none → b.opens = true

instance (J : JsonLib) (s : AuthHistory) (b : Boot) : Decidable (Covered J s b) :=
  decidable_of_iff ((Missing J s.file b .admin ∨ Missing J s.file b .client) → b.adminOverride = [] ∧ b.clientOverride = []) <| by
    constructor
    · intro h scope scope' hm
      have hboth : Missing J s.file b .admin ∨ Missing J s.file b .client := by cases scope <;> simp [hm]
      cases scope' with
      | admin => exact (h hboth).1
      | client => exact (h hboth).2
    · rintro h (hm | hm)
      · exact ⟨h .admin .admin hm, h .admin .client hm⟩
      · exact ⟨h .client .admin hm, h .client .client hm⟩

instance (s : AuthHistory) (b : Boot) : Decidable (Opens s b) := inferInstanceAs (Decidable (_ → _))

/-- Generated and persisted, or in the directory from the beginning: not only ever an override. -/
def Known (J : JsonLib) (start : Option Bytes) (s : AuthHistory) (t : Bytes) : Prop :=
  (∃ scope, (scope, t) ∈ s.generated) ∨ ∃ scope, stored J start scope = t

/-- The manager of the last boot accepts a token that was only ever an override only if that boot was given it. -/
def Forgets (J : JsonLib) (start : Option Bytes) (s : AuthHistory) : Prop :=
  ∀ b m, s.booted = some (b, m) → ∀ t scope, m.checkScope t scope = true → ¬ Known J start s t → ∃ scope', b.override scope' = t

/-- The manager of the last boot accepts what was generated for a scope that the boot does not override. -/
def StaysValid (s : AuthHistory) : Prop :=
  ∀ b m, s.booted = some (b, m) → ∀ p ∈ s.generated, b.override p.1 = [] → m.checkScope p.2 p.1 = true

section
variable {J : JsonLib} {start : Option Bytes} {s s' : AuthHistory} {b : Boot} {m : AuthManager} {scope : AuthScope} {t : Bytes}

theorem mem_generates {file : Option Bytes} {p : AuthScope × Bytes} :
    p ∈ generates J file b ↔ Missing J file b p.1 ∧ p.2 = generateToken p.1.lead (b.random p.1) := by
  obtain ⟨scope, t⟩ := p
  simp only [generates, List.mem_map, List.mem_filter, decide_eq_true_eq, Prod.mk.injEq]
  constructor
  · rintro ⟨scope', ⟨-, hm⟩, rfl, rfl⟩
    exact ⟨hm, rfl⟩
  · rintro ⟨hm, rfl⟩
    exact ⟨scope, ⟨by cases scope <;> simp, hm⟩, rfl, rfl⟩

/-- What a boot does to the history. -/
theorem boot_cases (h : boot J s b = some s') :
    s' = { s with booted := none } ∨ ∃ m file, Boots J s.file b m file ∧
      s' = { file := file, booted := some (b, m), generated := s.generated ++ generates J s.file b } := by
  unfold boot at h
  have hinit := initializeAuth_cases J s.file b
  generalize initializeAuth J s.file b = res at h hinit
  obtain ⟨m, file⟩ := res
  cases m with
  | none =>
    obtain ⟨-, hfile⟩ | ⟨m, hm, -⟩ := hinit
    · cases h
      exact Or.inl (by rw [show file = s.file from hfile])
    · cases hm
  | some m =>
    obtain ⟨hm, -⟩ | ⟨m', hm, hboots⟩ := hinit
    · cases hm
    · cases hm
      cases h
      exact Or.inr ⟨m, file, hboots, rfl⟩

/-- The boot's token of a scope that it has no override for. -/
theorem Boots.token_of_no_override {file file' : Option Bytes} (h : Boots J file b m file') (ho : b.override scope = []) :
    m.token scope = if Missing J file b scope then generateToken scope.lead (b.random scope) else stored J (b.reads file) scope := by
  rw [h.token, wanted]
  simp [ho]

theorem Known.mono {more : List (AuthScope × Bytes)} {file : Option Bytes} {booted : Option (Boot × AuthManager)} (h : Known J start s t) :
    Known J start { file := file, booted := booted, generated := s.generated ++ more } t :=
  h.imp (fun ⟨scope, hmem⟩ => ⟨scope, List.mem_append_left _ hmem⟩) id

/-- Every stored token is known. -/
def Honest (J : JsonLib) (start : Option Bytes) (s : AuthHistory) : Prop := ∀ scope, stored J s.file scope ≠ [] → Known J start s (stored J s.file scope)

/-- The token of a boot is an override or known. -/
theorem Boots.token_known {file : Option Bytes} (h : Boots J s.file b m file) (hhonest : Honest J start s) (scope : AuthScope) :
    m.token scope = b.override scope ∨
      Known J start { file := file, booted := some (b, m), generated := s.generated ++ generates J s.file b } (m.token scope) := by
  by_cases ho : b.override scope = []
  · refine Or.inr ?_
    have htoken := h.token_of_no_override ho
    by_cases hm : Missing J s.file b scope
    · rw [if_pos hm] at htoken
      exact Or.inl ⟨scope, List.mem_append_right _ (mem_generates.2 ⟨hm, htoken⟩)⟩
    · rw [if_neg hm] at htoken
      rw [htoken]
      have hstored : stored J (b.reads s.file) scope ≠ [] := fun hno => hm ⟨ho, hno⟩
      unfold Boot.reads at hstored ⊢
      split at hstored
      · rw [if_pos ‹_›]
        exact (hhonest scope hstored).mono
      · exact absurd stored_none hstored
  · refine Or.inl ?_
    rw [h.token, wanted, if_neg fun hm => ho hm.1, if_pos ho]

/-- **A covered boot stores no override.** -/
theorem honest_step (h : Honest J start s) (hcovered : Covered J s b) (hs : boot J s b = some s') : Honest J start s' ∧ Forgets J start s' := by
  obtain rfl | ⟨m, file, hboots, rfl⟩ := boot_cases hs
  · exact ⟨h, fun b m hno => by cases hno⟩
  constructor
  · intro scope hne
    obtain ⟨-, rfl⟩ | ⟨⟨missing, hmissing⟩, text, rfl, hdump⟩ := hboots.wrote
    · exact (h scope hne).mono
    · rw [stored_doc hdump] at hne ⊢
      obtain ho | hknown := hboots.token_known h scope
      · rw [ho, hcovered missing scope hmissing] at hne
        exact absurd rfl hne
      · exact hknown
  · rintro b' m' hbooted t scope hcheck hunknown
    cases hbooted
    obtain ⟨-, scope', rfl⟩ := token_of_checkScope hcheck
    obtain ho | hknown := hboots.token_known h scope'
    · exact ⟨scope', ho.symm⟩
    · exact absurd hknown hunknown

/-- What was generated is stored, next to a token of the other scope. -/
structure Persisted (J : JsonLib) (s : AuthHistory) : Prop where
  tokens : ∀ p ∈ s.generated, stored J s.file p.1 = p.2
  both : s.generated ≠ [] → ∀ scope, stored J s.file scope ≠ []

/-- **A boot that can open the file keeps what was generated.** -/
theorem persisted_step (h : Persisted J s) (hopens : Opens s b) (hs : boot J s b = some s') : Persisted J s' ∧ StaysValid s' := by
  obtain rfl | ⟨m, file, hboots, rfl⟩ := boot_cases hs
  · exact ⟨⟨h.tokens, h.both⟩, fun b m hno => by cases hno⟩
  have hpersisted : Persisted J { file := file, booted := some (b, m), generated := s.generated ++ generates J s.file b } := by
    obtain ⟨hnone, rfl⟩ | ⟨⟨missing, hmissing⟩, text, rfl, hdump⟩ := hboots.wrote
    · have hnothing : generates J s.file b = [] := List.eq_nil_iff_forall_not_mem.2 fun p hp => hnone p.1 (mem_generates.1 hp).1
      rw [hnothing, List.append_nil]
      exact ⟨h.tokens, h.both⟩
    · -- nothing was generated before, for a file with both tokens would have been read
      have hfirst : s.generated = [] := by
        by_contra hne
        have hboth := h.both hne missing
        have hfile : s.file ≠ none := fun hno => hboth (by rw [hno, stored_none])
        have hread := hmissing.2
        rw [Boot.reads, if_pos (hopens hfile)] at hread
        exact hboth hread
      refine ⟨fun p hp => ?_, fun _ scope => ?_⟩
      · rw [stored_doc hdump]
        rw [hfirst, List.nil_append] at hp
        obtain ⟨hm, ht⟩ := mem_generates.1 hp
        rw [hboots.token, wanted, if_pos hm, ht]
      · rw [stored_doc hdump, hboots.token]
        exact wanted_ne_nil J s.file b scope
  refine ⟨hpersisted, ?_⟩
  rintro b' m' hbooted p hp ho
  cases hbooted
  have htoken : m.token p.1 = p.2 := by
    rw [← hpersisted.tokens p hp]
    obtain ⟨hnone, rfl⟩ | ⟨-, text, rfl, hdump⟩ := hboots.wrote
    · rw [hboots.token_of_no_override ho, if_neg (hnone p.1), Boot.reads]
      split
      · rfl
      · rename_i hclosed
        have hfile : s.file = none := by
          by_contra hne
          exact hclosed (hopens hne)
        rw [hfile]
    · rw [stored_doc hdump]
  rw [← htoken]
  refine checkScope_token ?_
  rw [hboots.token]
  exact wanted_ne_nil J s.file b p.1

/-- An override that is given to a boot which generates the other token is accepted by the next boot without overrides. -/
theorem remembered (hnot : ¬ Covered J s b) (hs : boot J s b = some s') (hbooted : s'.booted ≠ none) :
    ∃ scope s'' m, b.override scope ≠ [] ∧ boot J s' {} = some s'' ∧ s''.booted = some ({}, m) ∧ m.checkScope (b.override scope) scope = true := by
  obtain rfl | ⟨m, file, hboots, rfl⟩ := boot_cases hs
  · exact absurd rfl hbooted
  simp only [Covered, not_forall] at hnot
  obtain ⟨missing, scope, hmissing, ho⟩ := hnot
  obtain ⟨hnone, -⟩ | ⟨-, text, rfl, hdump⟩ := hboots.wrote
  · exact absurd hmissing (hnone missing)
  have hparse : J.parse text = some m.doc := J.parse_dump _ _ hdump
  have hne : ∀ scope, m.token scope ≠ [] := fun scope => by
    rw [hboots.token]
    exact wanted_ne_nil J s.file b scope
  have hload : load J (some text) { adminToken := [], clientToken := [] } = some m := by
    rw [load, Option.bind_some, hparse]
    rfl
  have hinit : initializeAuth J (some text) {} = (some m, some text) := by
    have hnothing : ¬ (m.adminToken = [] ∨ m.clientToken = []) := fun hor => hor.elim (hne .admin) (hne .client)
    simp [initializeAuth, Boot.reads, hload, hnothing]
  refine ⟨scope, _, m, ho, by rw [boot, hinit], rfl, ?_⟩
  have htoken : m.token scope = b.override scope := by
    rw [hboots.token, wanted, if_neg fun hm => ho hm.1, if_pos ho]
  rw [← htoken]
  exact checkScope_token (hne scope)

end

/-- **Overrides are forgotten** in every run of boots of which none that has to generate a token is given the other one, and
what was generated stays valid in every run of boots that can open the file. -/
theorem overrides_forgotten (J : JsonLib) (start : Option Bytes) (bs : List Boot) (s : AuthHistory)
    (hr : run (boot J) { file := start } bs = some s) :
    (Allowed (boot J) (Covered J) { file := start } bs → Forgets J start s ∧
      ∀ b s', ¬ Covered J s b → boot J s b = some s' → s'.booted ≠ none → ∃ scope s'' m, b.override scope ≠ [] ∧
        boot J s' {} = some s'' ∧ s''.booted = some ({}, m) ∧ m.checkScope (b.override scope) scope = true) ∧
    (Allowed (boot J) Opens { file := start } bs → StaysValid s) := by
  constructor
  · intro hcovered
    have hinv := run_invariant (fun s => Honest J start s ∧ Forgets J start s) (fun _ _ _ h ha hs => honest_step h.1 ha hs)
      ⟨fun scope _ => Or.inr ⟨scope, rfl⟩, fun b m hno => by cases hno⟩ hcovered hr
    exact ⟨hinv.2, fun b s' hnot hs hbooted => remembered hnot hs hbooted⟩
  · intro hopens
    exact (run_invariant (fun s => Persisted J s ∧ StaysValid s) (fun _ _ _ h ha hs => persisted_step h.1 ha hs)
      ⟨⟨by simp, by simp⟩, fun b m hno => by cases hno⟩ hopens hr).2

/-- `doc.dump(2)`, for tokens that need no escapes. -/
def docText (a : AuthManager) : Bytes :=
  str "\x7b\n  \"admin_token\": \"" ++ a.adminToken ++ str "\",\n  \"client_token\": \"" ++ a.clientToken ++ str "\"\n\x7d"

/-- What a boot generates whose random bytes are all zero. -/
def zeroTokens : AuthManager where
  adminToken := generateToken AuthScope.admin.lead (List.replicate 24 0)
  clientToken := generateToken AuthScope.client.lead (List.replicate 24 0)

def zeroBoot : Boot where
  adminRandom := List.replicate 24 0
  clientRandom := List.replicate 24 0

def xBoot : Boot := { adminOverride := str "X" }

/-- The first boot generates both tokens, the second overrides one of them. -/
theorem overrides_forgotten_two : ∃ (J : JsonLib) (s : AuthHistory),
    run (boot J) { file := none } [zeroBoot, xBoot] = some s ∧ Forgets J none s ∧ StaysValid s := by
  let J : JsonLib := .ofTable [(zeroTokens.doc, zeroTokens.docText)] (by decide +kernel)
  let s : AuthHistory :=
    { file := some zeroTokens.docText
      booted := some (xBoot, { zeroTokens with adminToken := str "X" })
      generated := generates J none zeroBoot }
  have hrun : run (boot J) { file := none } [zeroBoot, xBoot] = some s := by decide +kernel
  have hforgotten := overrides_forgotten J none [zeroBoot, xBoot] s hrun
  exact ⟨J, s, hrun, (hforgotten.1 (by decide +kernel)).1, hforgotten.2 (by decide +kernel)⟩

/-- The first boot is given an admin token only, the second nothing. -/
theorem override_remembered : ∃ (J : JsonLib) (s : AuthHistory) (m : AuthManager),
    run (boot J) { file := none } [{ zeroBoot with adminOverride := str "X" }, {}] = some s ∧ s.booted = some ({}, m) ∧
      m.checkScope (str "X") .admin = true ∧ ¬ Known J none s (str "X") ∧ ¬ Forgets J none s := by
  let a : AuthManager := { zeroTokens with adminToken := str "X" }
  let J : JsonLib := .ofTable [(a.doc, a.docText)] (by decide)
  let s : AuthHistory :=
    { file := some a.docText
      booted := some ({}, a)
      generated := generates J none { zeroBoot with adminOverride := str "X" } }
  have hrun : run (boot J) { file := none } [{ zeroBoot with adminOverride := str "X" }, {}] = some s := by decide
  have hgenerated : ∀ p ∈ s.generated, p.2 ≠ str "X" := by decide
  have hunknown : ¬ Known J none s (str "X") := by
    rintro (⟨scope, hmem⟩ | ⟨scope, hstored⟩)
    · exact hgenerated _ hmem rfl
    · rw [stored_none] at hstored
      exact absurd hstored (by decide)
  have hcheck : a.checkScope (str "X") .admin = true := by decide
  refine ⟨J, s, a, hrun, rfl, hcheck, hunknown, fun hforgets => ?_⟩
  obtain ⟨scope, ho⟩ := hforgets {} a rfl (str "X") .admin hcheck hunknown
  cases scope <;> exact absurd ho (by decide)

end AuthManager

end OriginDB
