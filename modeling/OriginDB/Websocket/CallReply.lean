import OriginDB.Wasm.Execute
import OriginDB.Websocket.Reports
/-!
# What a client is told of its call (`websocket_server.cpp:588-664`)

`HandleCallReducer` prints its answer after the call, and a printer throws on a string that is not UTF-8. For the
answer to a call that went well this happens outside the `try`: `HandleWebSocketMessage` answers the exception with an
error of its own, with no id in it, although the call is committed. Error texts may carry what a guest wrote, and are
printed inside the exception handler.
-/
namespace OriginDB

open JsonDoc ByteCodec Throwing

namespace ClientThread

/-! ## The outcome and the replies -/

section
variable (host : Host) (t : ClientThread) (socket : Nat) (message : Bytes)

/-- What `ExecuteReducer` made of the call a message asks for, if it got that far. -/
def callOutcome : Option (Except Bytes ReducerResult) :=
  match host.wasmEngine, calledReducer host.lib message with
  | some executeReducer, some called =>
    some (executeReducer (t.handled + 1) called
      (Gateway.websocketContext t.server socket called.moduleName (host.now (t.handled + 1))))
  | _, _ => none

def committed : Bool :=
  match callOutcome host t socket message with
  | some (.ok result) => result.success
  | _ => false

/-- The id of a message; it is empty in one without. -/
def messageId : Option Bytes := (host.lib.parse message).bind fun request => request.valueOr (str "id") []

/-- What the client reads in the frames it is sent for the message. -/
def replies : List Json :=
  ((exec (handleWebSocketMessage host socket message) t).2.sent.drop t.sent.length).filterMap host.lib.parse

end

def isCallResult (j : Json) : Bool := j.constMember (str "type") = some (.string (str "call_result"))

def succeeded (j : Json) : Bool := j.constMember (str "success") = some (.bool true)

def failed (j : Json) : Bool := j.constMember (str "success") = some (.bool false)

/-- An error document, or the result of a call that has not succeeded. -/
def isError (j : Json) : Bool :=
  decide (j.constMember (str "type") = some (.string (str "error"))) || isCallResult j && !succeeded j

/-- The replies to a call that was committed hold no error and, if there is an id, one `call_result` with it that says
so; those to one that was not hold one that says so. -/
def RepliesTell (committed : Bool) (id : Option Bytes) (replies : List Json) : Prop :=
  if committed = true then
    (∀ j ∈ replies, isError j = false) ∧ ∀ text, id = some text → text ≠ [] →
      ∃ j, replies.filter isCallResult = [j] ∧ j.constMember (str "id") = some (.string text) ∧ succeeded j = true
  else
    ∃ j, replies.filter isCallResult = [j] ∧ failed j = true ∧
      ∀ text, id = some text → j.constMember (str "id") = some (.string text)

/-- Can a value be printed? -/
def printable (v : ReturnedValue) : Bool := (resultJson v).all Json.utf8

/-- The calls whose outcome can be told: the engine is there, and the text of the answer is UTF-8. A message whose id
is no string makes no call. -/
def Tellable (host : Host) (t : ClientThread) (socket : Nat) (message : Bytes) : Prop :=
  match messageId host message with
  | none => True
  | some id => host.wasmEngine.isSome = true ∧
    match callOutcome host t socket message with
    | none => True
    | some (.error what) => Utf8 what
    | some (.ok result) =>
      if result.success = true then id = [] ∨ ∀ v ∈ result.values.head?, printable v = true
      else Utf8 result.error

/-! ## The answer -/

/-- The document `HandleCallReducer` comes to send. -/
def answer (host : Host) (t : ClientThread) (socket : Nat) (request : Json) : Option Json :=
  match request.valueOr (str "id") [] with
  | none => some (callError none (host.typeError request))
  | some id =>
    match callEnd host t socket request with
    | .answered error success => some (callFailed (some id) (str error) success)
    | .threw e => some (callError (some id) e)
    | .called result => if result.success = false ∨ id ≠ [] then some (callResult id result) else none

section
variable {host : Host} {t : ClientThread} {socket : Nat} {message : Bytes} {request j : Json} {id e : Bytes}

@[simp] theorem utf8_callSucceeded {result : Option Json} :
    (callSucceeded id result).utf8 = true ↔ Utf8 id ∧ result.all Json.utf8 = true := by
  cases result <;> simp [callSucceeded, utf8_str]

/-! ## What is sent when every frame goes out -/

/-- The document goes out, or else the report of the exception. -/
theorem exec_reporting_sendJson (hs : host.Sound) (hall : ∀ n, host.sends n = .all) {report : Bytes → Json}
    (hreport : ∀ e, Utf8 e → (report e).utf8 = true) (j : Json) : ∃ text,
    exec (reporting host report (sendJson host j)) t = (.ok (), t.afterSend text .all) ∧
    host.lib.parse text = some (if j.utf8 = true then j else report (host.dumpError j)).reparsed := by
  by_cases hj : j.utf8 = true
  · obtain ⟨text, htext⟩ := hs.dump hj
    refine ⟨text, exec_reporting_ok ?_, ?_⟩
    · rw [exec_sendJson htext, hall, if_pos rfl]
    · rw [if_pos hj]
      exact host.lib.parse_dump _ _ htext
  · obtain ⟨text, htext⟩ := hs.dump (hreport _ (hs.dumpError_utf8 j))
    refine ⟨text, ?_, ?_⟩
    · rw [exec_reporting_error (exec_sendJson_unprintable (hs.dump_none (by simpa using hj))), exec_sendJson htext, hall,
        if_pos rfl]
    · rw [if_neg hj]
      exact host.lib.parse_dump _ _ htext

/-- **`HandleCallReducer` sends its answer**, last of all. -/
theorem exec_handleCallReducer (hs : host.Sound) (hall : ∀ n, host.sends n = .all)
    (hparse : host.lib.parse message = some request) (t : ClientThread) :
    exec (handleCallReducer host socket message) t =
      match answer host t socket request with
      | none => (.ok (), t)
      | some j => exec (sendJson host j) t := by
  have hutf := hs.parse_utf8 _ _ hparse
  unfold handleCallReducer answer
  rw [hparse]
  simp only
  cases hid : request.valueOr (str "id") [] with
  | none => rfl
  | some id =>
    have hexec := exec_callReducer host t socket request id
    simp only
    cases hend : callEnd host t socket request with
    | answered error success =>
      have hanswer : (callFailed (some id) (str error) success).utf8 = true :=
        utf8_callFailed.2 ⟨utf8_str error, Json.utf8_valueOr hutf hid⟩
      obtain ⟨text, htext⟩ := hs.dump hanswer
      simp only [hend, bind_pure_comp, exec_map, exec_sendJson htext, hall, if_true] at hexec
      rw [exec_answering_none hexec]
      simp only [exec_sendJson htext, hall, if_true]
    | threw e =>
      rw [hend] at hexec
      exact exec_answering_error hexec
    | called result =>
      rw [hend] at hexec
      rw [exec_answering_some hexec]
      simp only
      split <;> rfl

theorem replies_eq (hs : host.Sound) (hall : ∀ n, host.sends n = .all) (hparse : host.lib.parse message = some request)
    (htype : request.valueOr (str "type") [] = some (str "call_reducer")) :
    replies host t socket message = (answer host (t.called message) socket request).toList.map fun j =>
      (if j.utf8 = true then j else errorJson (str "Invalid JSON: " ++ host.dumpError j)).reparsed := by
  have hhandle : exec (handleWebSocketMessage host socket message) t =
      exec (reporting host (fun e => errorJson (str "Invalid JSON: " ++ e)) (handleCallReducer host socket message))
        (t.called message) := by
    unfold handleWebSocketMessage
    rw [exec_bind_ok (exec_modify _ _)]
    unfold reporting
    rw [exec_tryCatch, exec_tryCatch, exec_bind_ok (exec_parse hparse), exec_bind_ok (exec_value htype)]
    rfl
  unfold replies
  rw [hhandle, reporting]
  cases hanswer : answer host (t.called message) socket request with
  | none =>
    rw [exec_tryCatch, exec_handleCallReducer hs hall hparse, hanswer]
    simp
  | some j =>
    have hreport : ∀ e, Utf8 e → (errorJson (str "Invalid JSON: " ++ e)).utf8 = true :=
      fun e he => utf8_errorJson.2 ((utf8_str _).append he)
    obtain ⟨text, hexec, htext⟩ := exec_reporting_sendJson (t := t.called message) hs hall hreport j
    rw [reporting, exec_tryCatch] at hexec
    rw [exec_tryCatch, exec_handleCallReducer hs hall hparse, hanswer]
    simp only [hexec, sent_afterSend, sent_called, List.drop_left, List.filterMap_cons, htext, List.filterMap_nil, Option.toList_some,
      List.map_cons, List.map_nil]

/-! ## What the replies say -/

@[simp] theorem reparsed_callFailed (id : Option Bytes) (success : Option Bool) :
    (callFailed id e success).reparsed = callFailed id e success := by
  cases id <;> cases success <;> rfl

@[simp] theorem reparsed_callSucceeded (result : Option Json) :
    (callSucceeded id result).reparsed = callSucceeded id (result.map Json.reparsed) := by
  cases result <;> rfl

@[simp] theorem reparsed_errorJson : (errorJson e).reparsed = errorJson e := rfl

@[simp] theorem isCallResult_callFailed (id : Option Bytes) (success : Option Bool) :
    isCallResult (callFailed id e success) = true := by
  cases id <;> cases success <;> rfl

@[simp] theorem isCallResult_callSucceeded (result : Option Json) : isCallResult (callSucceeded id result) = true := by
  cases result <;> rfl

@[simp] theorem isCallResult_errorJson : isCallResult (errorJson e) = false := rfl

@[simp] theorem isError_errorJson : isError (errorJson e) = true := rfl

@[simp] theorem failed_callFailed (id : Option Bytes) (success : Option Bool) :
    failed (callFailed id e success) = decide (success = some false) := by
  cases id <;> cases success with
    | none => rfl
    | some b => cases b <;> rfl

@[simp] theorem succeeded_callSucceeded (result : Option Json) : succeeded (callSucceeded id result) = true := by
  cases result <;> rfl

@[simp] theorem isError_callSucceeded (result : Option Json) : isError (callSucceeded id result) = false := by
  cases result <;> rfl

@[simp] theorem id_callFailed (success : Option Bool) :
    (callFailed (some id) e success).constMember (str "id") = some (.string id) := by
  cases success <;> rfl

@[simp] theorem id_callSucceeded (result : Option Json) :
    (callSucceeded id result).constMember (str "id") = some (.string id) := by
  cases result <;> rfl

/-- An error document tells of no call, and must not be sent for one that was committed. -/
theorem not_repliesTell_errorJson {committed : Bool} {messageId : Option Bytes} :
    ¬ RepliesTell committed messageId [errorJson e] := by
  cases committed with
  | false =>
    rintro ⟨j, hj, -⟩
    simp at hj
  | true =>
    rintro ⟨hnone, -⟩
    simpa using hnone (errorJson e) (by simp)

/-- The answer to a call that failed tells, if it can be printed and has the member `success`. -/
theorem repliesTell_failed {id messageId : Option Bytes} {success : Option Bool} {e' : Bytes}
    (hid : ∀ text, messageId = some text → id = some text) :
    RepliesTell false messageId
      [(if (callFailed id e success).utf8 = true then callFailed id e success else errorJson e').reparsed] ↔
    (callFailed id e success).utf8 = true ∧ success = some false := by
  by_cases hutf : (callFailed id e success).utf8 = true
  · rw [if_pos hutf, reparsed_callFailed]
    constructor
    · rintro ⟨j, hj, hfailed, -⟩
      simp only [List.filter_cons, isCallResult_callFailed, if_true, List.filter_nil, List.cons.injEq, and_true] at hj
      subst hj
      exact ⟨hutf, by simpa using hfailed⟩
    · rintro ⟨-, rfl⟩
      refine ⟨callFailed id e (some false), by simp, by simp, ?_⟩
      intro text htext
      rw [hid text htext]
      simp
  · rw [if_neg hutf]
    exact iff_of_false not_repliesTell_errorJson fun h => hutf h.1

theorem repliesTell_succeeded {result : Option Json} {e' : Bytes} :
    RepliesTell true (some id)
      [(if (callSucceeded id result).utf8 = true then callSucceeded id result else errorJson e').reparsed] ↔
    (callSucceeded id result).utf8 = true := by
  by_cases hutf : (callSucceeded id result).utf8 = true
  · rw [if_pos hutf, reparsed_callSucceeded]
    refine iff_of_true ⟨by simp, ?_⟩ hutf
    rintro text ⟨⟩ -
    exact ⟨callSucceeded id (result.map Json.reparsed), by simp, by simp, by simp⟩
  · rw [if_neg hutf]
    exact iff_of_false not_repliesTell_errorJson hutf

theorem repliesTell_silent : RepliesTell true (some []) [] := by
  refine ⟨by simp, ?_⟩
  rintro text ⟨⟩ hne
  exact absurd rfl hne

/-- The call that a message asks for. -/
theorem calledReducer_eq (hparse : host.lib.parse message = some request)
    (htype : request.valueOr (str "type") [] = some (str "call_reducer")) :
    calledReducer host.lib message = (request.valueOr (str "id") []).bind fun _ =>
      (request.valueOr (str "module") []).bind fun moduleName => (request.valueOr (str "reducer") []).bind fun reducerName =>
      if moduleName = [] ∨ reducerName = [] then none else some ⟨moduleName, reducerName, callArgs request⟩ := by
  unfold calledReducer callArgs
  rw [hparse, Option.bind_eq_bind, Option.bind_some, Option.bind_eq_bind, htype, Option.bind_some, if_neg (not_not_intro rfl)]
  rfl

/-- **What the client is told is what happened** exactly when there is an engine and the answer can be printed. -/
theorem replies_tell_iff (host : Host) (hs : host.Sound) (hall : ∀ n, host.sends n = .all) (t : ClientThread) (socket : Nat)
    (message : Bytes)
    (hcall : ((host.lib.parse message).bind fun request => request.valueOr (str "type") []) = some (str "call_reducer")) :
    RepliesTell (committed host t socket message) (messageId host message) (replies host t socket message) ↔
      Tellable host t socket message := by
  obtain ⟨request, hparse, htype⟩ := Option.bind_eq_some_iff.1 hcall
  have hutf := hs.parse_utf8 _ _ hparse
  have hid : messageId host message = request.valueOr (str "id") [] := by rw [messageId, hparse, Option.bind_some]
  rw [replies_eq hs hall hparse htype]
  unfold Tellable answer callEnd committed callOutcome
  rw [hid, calledReducer_eq hparse htype]
  cases hrid : request.valueOr (str "id") [] with
  | none =>
    have hutf8 : (callError none (host.typeError request)).utf8 = true :=
      utf8_callFailed_none.2 ((utf8_str _).append (hs.typeError_utf8 request))
    have htold : RepliesTell false none
        [(if (callError none (host.typeError request)).utf8 = true then callError none (host.typeError request)
          else errorJson (str "Invalid JSON: " ++ host.dumpError (callError none (host.typeError request)))).reparsed] :=
      (repliesTell_failed (by simp)).2 ⟨hutf8, rfl⟩
    cases host.wasmEngine <;> exact iff_of_true htold trivial
  | some id =>
    have hidutf := Json.utf8_valueOr hutf hrid
    cases hengine : host.wasmEngine with
    | none =>
      refine iff_of_false (fun h => ?_) (fun h => by simp at h)
      have := (repliesTell_failed (by simp)).1 h
      simp at this
    | some executeReducer =>
      simp only [Option.bind_some, Option.isSome_some, true_and]
      cases hmodule : request.valueOr (str "module") [] with
      | none =>
        exact iff_of_true ((repliesTell_failed (by simp)).2
          ⟨utf8_callFailed.2 ⟨(utf8_str _).append (hs.typeError_utf8 request), hidutf⟩, rfl⟩) trivial
      | some moduleName =>
        cases hreducer : request.valueOr (str "reducer") [] with
        | none =>
          exact iff_of_true ((repliesTell_failed (by simp)).2
            ⟨utf8_callFailed.2 ⟨(utf8_str _).append (hs.typeError_utf8 request), hidutf⟩, rfl⟩) trivial
        | some reducerName =>
          simp only [Option.bind_some]
          by_cases hempty : moduleName = [] ∨ reducerName = []
          · rw [if_pos hempty, if_pos hempty]
            exact iff_of_true ((repliesTell_failed (by simp)).2 ⟨utf8_callFailed.2 ⟨utf8_str _, hidutf⟩, rfl⟩) trivial
          · rw [if_neg hempty, if_neg hempty]
            simp only [handled_called, server_called]
            generalize executeReducer (t.handled + 1) ⟨moduleName, reducerName, callArgs request⟩
              (Gateway.websocketContext t.server socket moduleName (host.now (t.handled + 1))) = outcome
            cases outcome with
            | error what =>
              refine (repliesTell_failed (by simp)).trans ?_
              simp [hidutf, utf8_str_append]
            | ok result =>
              cases hsuccess : result.success with
              | false =>
                simp only [true_or, if_true, Option.toList_some, List.map_cons, List.map_nil, callResult, hsuccess,
                  Bool.false_eq_true, if_false]
                refine (repliesTell_failed (by simp)).trans ?_
                simp [hidutf]
              | true =>
                by_cases hempty : id = []
                · subst hempty
                  simpa [hsuccess] using repliesTell_silent
                · simp only [Bool.true_eq_false, false_or, ne_eq, hempty, not_false_eq_true, if_true, Option.toList_some,
                    List.map_cons, List.map_nil, callResult, hsuccess]
                  refine repliesTell_succeeded.trans ?_
                  cases result.values.head? <;> simp [hidutf, printable]

end

/-! ## On a message -/

def callRequest : Json :=
  .object [(str "id", .string (str "1")), (str "module", .string (str "m")), (str "reducer", .string (str "r")),
    (str "type", .string (str "call_reducer"))]

def callText : Bytes := str "\x7b\"id\":\"1\",\"module\":\"m\",\"reducer\":\"r\",\"type\":\"call_reducer\"\x7d"

def callDocs : List (Json × Bytes) := [(callRequest, callText)]

theorem callDocs_texts : ∀ d ∈ callDocs, d.2 ≠ [] ∧ d.2.head? ≠ some 35 ∧ parseTable callDocs d.2 = some d.1.reparsed := by
  decide

theorem callDocs_utf8 : (JsonLib.extended callDocs callDocs_texts).Utf8Only :=
  JsonLib.utf8Only_extended callDocs_texts (by decide)

/-- A library that reads that message. -/
noncomputable def callLib : JsonLib := (JsonLib.extended callDocs callDocs_texts).checked callDocs_utf8

/-- An engine whose calls all end so. -/
noncomputable def callHost (outcome : Except Bytes ReducerResult) : Host where
  lib := callLib
  parseError _ := str "[json.exception.parse_error.101] parse error"
  typeError _ := str "[json.exception.type_error.302] type must be string, but is number"
  dumpError _ := str "[json.exception.type_error.316] invalid UTF-8 byte at index 0: 0xFF"
  wasmEngine := some fun _ _ _ => outcome

theorem sound_callHost (outcome : Except Bytes ReducerResult) : (callHost outcome).Sound :=
  ⟨JsonLib.utf8Only_checked callDocs_utf8, fun text j hj => JsonLib.parse_checked callDocs_utf8 text j hj, fun _ => utf8_str _,
    fun _ => utf8_str _⟩

theorem parse_callText (outcome : Except Bytes ReducerResult) :
    (callHost outcome).lib.parse callText = some callRequest :=
  callLib.parse_dump callRequest callText (by decide)

theorem called_callText (outcome : Except Bytes ReducerResult) : callOutcome (callHost outcome) {} 7 callText = some outcome := by
  rw [callOutcome, calledReducer_eq (parse_callText outcome) rfl]
  rfl

theorem messageId_callText (outcome : Except Bytes ReducerResult) : messageId (callHost outcome) callText = some (str "1") := by
  rw [messageId, parse_callText]
  rfl

theorem call_answered :
    RepliesTell true (some (str "1")) (replies (callHost (.ok { success := true, values := [.int32 0] })) {} 7 callText) := by
  have htell := replies_tell_iff (callHost (.ok { success := true, values := [.int32 0] })) (sound_callHost _) (fun _ => rfl) {}
    7 callText (by rw [parse_callText]; rfl)
  rw [committed, called_callText, messageId_callText] at htell
  refine htell.2 ?_
  rw [Tellable, messageId_callText, called_callText]
  exact ⟨rfl, Or.inr (by decide)⟩

/-- What `ExecuteReducer` (wasm_engine.cpp:725) returns for what `Execute` makes of a call. -/
def executed : Called Wasm.WasmResult → Except Bytes ReducerResult
  | .threw _ => .error (str "[json.exception.type_error.302] type must be string, but is number")
  | .returned r _ => .ok { success := r.success, error := r.error, values := (r.value.map (Sum.elim .bytes .int32)).toList }

/-- A reducer that sets the byte 255 as its result and stages nothing. -/
def binaryCall : Called Wasm.WasmResult :=
  Wasm.execute { toJsonLib := JsonLib.ofTable [] (by simp), order := .sorted } 0 {} {} (str "m") (str "r") {}
    (.setResult [255] (.returns 0)) {}

theorem binary_result_told_as_error :
    (callHost (executed binaryCall)).Sound ∧
    ((callHost (executed binaryCall)).lib.parse callText).bind (Json.valueOr (str "type") []) = some (str "call_reducer") ∧
    committed (callHost (executed binaryCall)) {} 7 callText = true ∧
    ¬ RepliesTell (committed (callHost (executed binaryCall)) {} 7 callText) (messageId (callHost (executed binaryCall)) callText)
      (replies (callHost (executed binaryCall)) {} 7 callText) := by
  have hcall : executed binaryCall = .ok { success := true, values := [.bytes [255]] } := rfl
  rw [hcall, parse_callText]
  refine ⟨sound_callHost _, rfl, by rw [committed, called_callText], ?_⟩
  rw [replies_eq (sound_callHost _) (fun _ => rfl) (parse_callText _) rfl]
  exact not_repliesTell_errorJson

end ClientThread

end OriginDB
