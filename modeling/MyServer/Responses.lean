import MyServer.Maps
import MyServer.Servers

/-!
# What is sent in reply (`funcHandler.cpp`, `accountHandler.cpp`, `gameServer.cpp`)

`runFuncHandler` fills the response in one of its cases only: the request parses, a handler
is registered for it, and the handler returns true. In the other cases it returns false,
which both servers ignore; they serialize the response as it is and send it. So what goes
out is then the frame of an empty `NetMessage`, with no protocol id, for nobody.

`responses_iff` says for every sequence of registrations and every request when each frame
that is sent in reply is the answer of the first handler that was registered for it.
-/

namespace MyServer

universe u

variable {σ : Type u}

/-! ## Registrations -/

/-- The arguments of a call of `registFuncHandler`. -/
structure Registration (σ : Type u) : Type u where
  /-- the protocol id of the requests -/
  requestId : Int32
  /-- the protocol id of the responses -/
  responseId : Int32
  /-- the handler -/
  handler : HandlerFunc σ

/-- The dispatcher after these registrations. -/
def registered (regs : List (Registration σ)) : FuncHandler σ :=
  regs.foldl (fun F r => F.registFuncHandler r.requestId r.responseId r.handler) .empty

/-- The first registration of a protocol id. -/
def firstFor (proto : Int32) (regs : List (Registration σ)) : Option (Registration σ) :=
  regs.find? fun r => r.requestId = proto

theorem foldl_registFuncHandler (regs : List (Registration σ)) (F : FuncHandler σ) :
    (regs.foldl (fun F r => F.registFuncHandler r.requestId r.responseId r.handler) F).handlerMap =
        regs.foldl (fun m r => m.insertIfNew r.requestId r.handler) F.handlerMap ∧
      (regs.foldl (fun F r => F.registFuncHandler r.requestId r.responseId r.handler) F).protoMap =
        regs.foldl (fun m r => m.insertIfNew r.requestId r.responseId) F.protoMap := by
  induction regs generalizing F with
  | nil => exact ⟨rfl, rfl⟩
  | cons r regs ih => exact ih (F.registFuncHandler r.requestId r.responseId r.handler)

/-- **The two maps stay in step**: both have the first registration. -/
theorem lookup_registered (regs : List (Registration σ)) (proto : Int32) :
    (registered regs).handlerMap[proto]? = (firstFor proto regs).map Registration.handler ∧
      (registered regs).protoMap[proto]? = (firstFor proto regs).map Registration.responseId := by
  obtain ⟨hhandler, hproto⟩ := foldl_registFuncHandler regs .empty
  refine ⟨?_, ?_⟩
  · rw [registered, hhandler, lookup_foldl_insertIfNew, FuncHandler.empty,
      Std.TreeMap.getElem?_emptyc, Option.none_or, firstFor]
  · rw [registered, hproto, lookup_foldl_insertIfNew, FuncHandler.empty,
      Std.TreeMap.getElem?_emptyc, Option.none_or, firstFor]

/-! ## Answers -/

/-- The JSON of a request: `null` for an empty message, `none` when it does not parse. -/
def bodyOf (J : JsonLib) (req : NetMessage) : Option Json :=
  if req.message ≠ [] then J.parse req.message else some .null

/-- The request parses, a handler is registered for it, and the handler does not return
false. -/
def Served (J : JsonLib) (regs : List (Registration σ)) (req : NetMessage) (w : σ) : Prop :=
  ∃ reqJson r, bodyOf J req = some reqJson ∧ firstFor req.proto regs = some r ∧
    ∀ rspJson, (r.handler reqJson req.playerId w).1 ≠ .ok (false, rspJson)

/-- A frame is the answer to a request: it has the player id and the net id of the request
and the response id of the first registration, and its message is the tightened JSON with
which the handler of that registration returned true. -/
def IsAnswer (o : ByteOrder) (J : JsonLib) (regs : List (Registration σ)) (req : NetMessage)
    (w : σ) (msg : NetMessage) : Prop :=
  ∃ reqJson r rspJson, bodyOf J req = some reqJson ∧ firstFor req.proto regs = some r ∧
    (r.handler reqJson req.playerId w).1 = .ok (true, rspJson) ∧
    msg.packet = ⟨r.responseId, req.playerId, req.netId, tighten (J.toStyledString rspJson)⟩ ∧
    msg.frame = msg.packet.bytes o

/-- The response object that `runFuncHandler` fills. -/
def filled (responseId : Int32) (req : NetMessage) (message : List UInt8) : NetMessage :=
  (((NetMessage.blank.setMessage message).setProto responseId).setPlayerId
    req.playerId).setNetId req.netId

/-- **How `runFuncHandler` ends.** -/
theorem runFuncHandler_cases (J : JsonLib) (regs : List (Registration σ)) (req : NetMessage)
    (w : σ) :
    (¬ Served J regs req w ∧
      ∃ w', (registered regs).runFuncHandler J req .blank w = (.ok (false, .blank), w')) ∨
    (Served J regs req w ∧ ∃ fault w',
      (registered regs).runFuncHandler J req .blank w = (.error fault, w')) ∨
    (Served J regs req w ∧ ∃ reqJson r rspJson w', bodyOf J req = some reqJson ∧
      firstFor req.proto regs = some r ∧
      (r.handler reqJson req.playerId w).1 = .ok (true, rspJson) ∧
      (registered regs).runFuncHandler J req .blank w =
        (.ok (true, filled r.responseId req (tighten (J.toStyledString rspJson))), w')) := by
  obtain ⟨hhandler, hproto⟩ := lookup_registered regs req.proto
  rw [FuncHandler.runFuncHandler, hhandler, hproto, ← bodyOf]
  rcases hbody : bodyOf J req with _ | reqJson
  · refine .inl ⟨?_, w, rfl⟩
    rintro ⟨reqJson, r, hsome, _⟩
    rw [hbody] at hsome
    cases hsome
  rcases hfirst : firstFor req.proto regs with _ | r
  · refine .inl ⟨?_, w, rfl⟩
    rintro ⟨reqJson, r, _, hsome, _⟩
    rw [hfirst] at hsome
    cases hsome
  -- from here on the handler decides
  dsimp only [Option.map_some]
  have hserved : Served J regs req w ↔
      ∀ rspJson, (r.handler reqJson req.playerId w).1 ≠ .ok (false, rspJson) := by
    refine ⟨?_, fun h => ⟨reqJson, r, hbody, hfirst, h⟩⟩
    rintro ⟨reqJson', r', hbody', hfirst', h⟩
    cases hbody.symm.trans hbody'
    cases hfirst.symm.trans hfirst'
    exact h
  rw [hserved]
  rcases hrun : r.handler reqJson req.playerId w with ⟨fault | ⟨_ | _, rspJson⟩, w'⟩
  · refine .inr (.inl ⟨?_, fault, w', rfl⟩)
    intro rspJson h
    cases h
  · exact .inl ⟨fun h => h rspJson rfl, w', rfl⟩
  · refine .inr (.inr ⟨?_, reqJson, r, rspJson, w', rfl, rfl, ?_, rfl⟩)
    · intro rspJson h
      cases h
    · rw [hrun]

/-! ## Frames -/

/-- The messages `sendMessage` has been called with since the connection was `c`. -/
def newCalls (c c' : TcpConnection) : List NetMessage :=
  (c'.sendLog.drop c.sendLog.length).map Prod.fst

theorem newCalls_self (c : TcpConnection) : newCalls c c = [] := by
  rw [newCalls, List.drop_length, List.map_nil]

theorem newCalls_sendMessage (c : TcpConnection) (msg : NetMessage) :
    newCalls c (c.sendMessage msg).1 = [msg] := by
  rw [newCalls, TcpConnection.sendMessage_frame]
  dsimp only
  rw [List.drop_left, List.map_singleton]

theorem serialize_blank (o : ByteOrder) : (NetMessage.blank.serialize o).2 = true := by
  rw [NetMessage.serialize_eq_true_iff]
  decide

namespace Backend

variable {o : ByteOrder} {J : JsonLib} {F : FuncHandler σ} {b : Backend σ} {req : NetMessage}

theorem newCalls_respond_error {fault : JsonFault} {w : σ}
    (h : F.runFuncHandler J req .blank b.world = (.error fault, w)) :
    newCalls b.gateConn (b.respond o J F req).1.gateConn = [] := by
  rw [respond, h]
  exact newCalls_self b.gateConn

theorem newCalls_respond_ok {handled : Bool} {rsp : NetMessage} {w : σ}
    (h : F.runFuncHandler J req .blank b.world = (.ok (handled, rsp), w)) :
    newCalls b.gateConn (b.respond o J F req).1.gateConn =
      if (rsp.serialize o).2 then [(rsp.serialize o).1] else [] := by
  rw [respond, h]
  dsimp only
  split
  · exact newCalls_sendMessage b.gateConn _
  · exact newCalls_self b.gateConn

/-- `onRecv` sends what `respond` sends, when the protocol is one of the server's. -/
theorem newCalls_onRecv :
    newCalls b.gateConn (b.onRecv o J F req).1.gateConn =
      if inAccountRange req.proto then newCalls b.gateConn (b.respond o J F req).1.gateConn
      else [] := by
  rw [onRecv]
  rcases inAccountRange req.proto with _ | _
  · exact newCalls_self b.gateConn
  · rcases b.respond o J F req with ⟨b', _ | fault⟩ <;> rfl

end Backend

/-- `runMessage` sends what `respond` sends for the front of the queue. -/
theorem GameServer.newCalls_runMessage (o : ByteOrder) (J : JsonLib) (F : FuncHandler σ)
    (b : Backend σ) (req : NetMessage) (rest : List NetMessage) :
    newCalls b.gateConn (GameServer.runMessage o J F ⟨b, req :: rest⟩).gateConn =
      newCalls b.gateConn (b.respond o J F req).1.gateConn := by
  rw [GameServer.runMessage]
  dsimp only
  rcases b.respond o J F req with ⟨b', _ | fault⟩ <;> rfl

section

variable {o : ByteOrder} {J : JsonLib} {regs : List (Registration σ)} {req : NetMessage} {w : σ}

/-- The response that was filled is the answer. -/
theorem isAnswer_filled {reqJson rspJson : Json} {r : Registration σ}
    (hbody : bodyOf J req = some reqJson) (hfirst : firstFor req.proto regs = some r)
    (hrun : (r.handler reqJson req.playerId w).1 = .ok (true, rspJson)) {rsp : NetMessage}
    (hrsp : rsp = filled r.responseId req (tighten (J.toStyledString rspJson)))
    (hser : (rsp.serialize o).2 = true) : IsAnswer o J regs req w (rsp.serialize o).1 := by
  have hpacket := (NetMessage.serialize_spec hser).1
  have hframe : (rsp.serialize o).1.frame = rsp.packet.bytes o := by
    refine NetMessage.frame_serialize ?_ hser
    rw [hrsp]
    rfl
  refine ⟨reqJson, r, rspJson, hbody, hfirst, hrun, ?_, ?_⟩
  · rw [hpacket, hrsp]
    rfl
  · rw [hframe, hpacket]

theorem IsAnswer.served {msg : NetMessage} (h : IsAnswer o J regs req w msg) :
    Served J regs req w := by
  obtain ⟨reqJson, r, rspJson, hbody, hfirst, hrun, -, -⟩ := h
  refine ⟨reqJson, r, hbody, hfirst, ?_⟩
  intro rspJson' hfalse
  cases hrun.symm.trans hfalse

end

/-- **One response.** What `respond` sends is the answer exactly when the request is
served; otherwise the empty response goes out. -/
theorem Backend.respond_answers_iff (o : ByteOrder) (J : JsonLib) (regs : List (Registration σ))
    (b : Backend σ) (req : NetMessage) :
    (∀ msg ∈ newCalls b.gateConn (b.respond o J (registered regs) req).1.gateConn,
      IsAnswer o J regs req b.world msg) ↔ Served J regs req b.world := by
  obtain ⟨hnot, w, hrun⟩ | ⟨hserved, fault, w, hrun⟩ |
    ⟨hserved, reqJson, r, rspJson, w, hbody, hfirst, hhandler, hrun⟩ :=
    runFuncHandler_cases J regs req b.world
  · -- the caller does not look at the false: the empty response is sent
    rw [newCalls_respond_ok hrun, if_pos (serialize_blank o)]
    refine ⟨fun h => ?_, fun h => absurd h hnot⟩
    exact (h _ (List.mem_singleton_self _)).served
  · rw [newCalls_respond_error hrun]
    refine ⟨fun _ => hserved, ?_⟩
    intro _ msg hmsg
    cases hmsg
  · rw [newCalls_respond_ok hrun]
    refine ⟨fun _ => hserved, ?_⟩
    intro _ msg hmsg
    split at hmsg
    · rename_i hser
      rw [List.mem_singleton.mp hmsg]
      exact isAnswer_filled hbody hfirst hhandler rfl hser
    · cases hmsg

/-- **The identity of responses.** For every sequence of registrations and every request:
each frame the account server sends in reply is the answer of the first registration
exactly when the request, if it is of the server's range, is served; and each frame the game
server sends for the front of its queue is the answer exactly when that is served. -/
theorem responses_iff (o : ByteOrder) (J : JsonLib) (regs : List (Registration σ))
    (req : NetMessage) (b : Backend σ) (rest : List NetMessage) :
    ((∀ msg ∈ newCalls b.gateConn (b.onRecv o J (registered regs) req).1.gateConn,
        IsAnswer o J regs req b.world msg) ↔
      (inAccountRange req.proto = true → Served J regs req b.world)) ∧
    ((∀ msg ∈ newCalls b.gateConn
          (GameServer.runMessage o J (registered regs) ⟨b, req :: rest⟩).gateConn,
        IsAnswer o J regs req b.world msg) ↔ Served J regs req b.world) := by
  refine ⟨?_, ?_⟩
  · rw [Backend.newCalls_onRecv]
    split
    · rename_i hrange
      rw [b.respond_answers_iff]
      exact ⟨fun h _ => h, fun h => h hrange⟩
    · rename_i hrange
      refine ⟨fun _ h => absurd h hrange, ?_⟩
      intro _ msg hmsg
      cases hmsg
  · rw [GameServer.newCalls_runMessage]
    exact b.respond_answers_iff o J regs req

/-- The account server with the one registration of protocol 2002, and a request of its
range for which there is none. The frame that goes out has protocol 0, player 0 and net id 0
and no message; the same happens at the game server. -/
theorem responses_fail_unregistered :
    let regs : List (Registration Unit) := [⟨2002, 2003, fun _ _ w => (.ok (true, .null), w)⟩]
    let req : NetMessage := .ofJson [] 2500 7 3
    let b : Backend Unit := .start 0 ()
    let blank := (NetMessage.blank.serialize .little).1
    ∀ J : JsonLib, blank.packet = ⟨0, 0, 0, []⟩ ∧
      newCalls b.gateConn (b.onRecv .little J (registered regs) req).1.gateConn = [blank] ∧
      newCalls b.gateConn
        (GameServer.runMessage .little J (registered regs) ⟨b, [req]⟩).gateConn = [blank] ∧
      ¬ IsAnswer .little J regs req () blank := by
  intro regs req b blank J
  have hnone : firstFor req.proto regs = none := rfl
  have hnot : ¬ Served J regs req () := by
    rintro ⟨reqJson, r, -, hfirst, -⟩
    cases hnone.symm.trans hfirst
  have hcalls : newCalls b.gateConn (b.respond .little J (registered regs) req).1.gateConn =
      [blank] := by
    obtain ⟨-, w, hrun⟩ | ⟨hserved, -⟩ | ⟨hserved, -⟩ := runFuncHandler_cases J regs req ()
    · rw [Backend.newCalls_respond_ok hrun, if_pos (serialize_blank .little)]
    · exact absurd hserved hnot
    · exact absurd hserved hnot
  refine ⟨(NetMessage.serialize_spec (serialize_blank .little)).1, ?_, ?_, ?_⟩
  · rw [Backend.newCalls_onRecv, if_pos (by decide), hcalls]
  · rw [GameServer.newCalls_runMessage, hcalls]
  · exact fun h => hnot h.served

end MyServer
