import ChatFabric.Controller
import ChatFabric.DecodeFailure
import ChatFabric.WhileLoop

/- chatFabric_device and chatFabric_controller of the host build with their connection: every call
   of the system is an argument, -1 or what it gives. -/
namespace HostCalls
open ByteStrings WhileLoop ChatFabric

inductive SockType where
  | stream | dgram | other
  deriving DecidableEq

structure Connection where
  type : SockType
  bind : Int32
  socket : Int32
  acceptedSocket : Int32
  deriving DecidableEq

/-- What socket and accept give in one call of chatFabric_consetup. That bind, listen or connect
    fails is not looked at. -/
structure Setup where
  socket : Int32
  accept : Int32

def chatFabricConsetup (a : Setup) (c : Connection) : Connection :=
  if c.type = .stream ∧ c.acceptedSocket = -1 ∧ c.socket ≠ -1 ∧ c.bind = 1 then
    { c with acceptedSocket := a.accept }
  else if c.type = .stream ∧ c.socket ≠ -1 ∧ c.bind = 0 then c
  else if c.type = .dgram ∧ c.socket ≠ -1 then c
  else
    let c := { c with acceptedSocket := -1, socket := a.socket }
    if c.socket = -1 then c
    else if c.bind = 1 ∧ c.type = .stream then { c with acceptedSocket := a.accept }
    else c

/-- One pass of a retry loop: what the call gives, if it succeeds, and the reconnect after it. -/
structure Attempt (Result : Type) where
  result : Option Result
  setup : Setup

inductive RetryEnd (Result : Type) where
  | noSocket
  | left (n : Option Result)

def retryLoop {Result : Type} (attempts : Nat → Attempt Result) :
    Nat → Nat → Connection → RetryEnd Result × Connection
  | 0, _, c => (.left none, c)
  | retry + 1, k, c =>
    match (attempts k).result with
    | some n => (.left (some n), c)
    | none =>
      let c := chatFabricConsetup (attempts k).setup { c with acceptedSocket := -1, socket := -1 }
      if c.socket = -1 then (.noSocket, c) else retryLoop attempts retry (k + 1) c

structure Answers where
  setup : Setup
  receives : Nat → Attempt Bytes
  world : World

structure Returned where
  e : FabricError
  c : Connection
  party : Party
  buffer : MsgBuffer

def closePaired (c : Connection) (pair : ChatFabricPairing) : Connection :=
  if c.type = .stream ∧ pair.state = .paired then
    if c.acceptedSocket ≠ -1 then { c with acceptedSocket := -1 }
    else if c.socket ≠ -1 then { c with acceptedSocket := -1, socket := -1 }
    else c
  else c

/-- The rest of chatFabric_device, from its receive loop on. -/
def receiveAll (crypto : Crypto) (callback : Option Callback) (x : Answers) (c : Connection) (p : Party)
    (b : MsgBuffer) : Except Halt Returned :=
  match retryLoop x.receives 3 0 c with
  | (.noSocket, c) => .ok ⟨.socket, c, p, b⟩
  | (.left none, c) => .ok ⟨.ok, c, p, b⟩
  | (.left (some datagram), c) => do
    let done ← ChatFabric.chatFabricDevice crypto callback x.world p b datagram
    .ok ⟨done.e, closePaired c done.party.pair, done.party, done.buffer⟩

def chatFabricDevice (crypto : Crypto) (callback : Option Callback) (x : Answers) (c : Connection)
    (p : Party) (b : MsgBuffer) : Except Halt Returned :=
  let b := { b with length := 0 }
  if c.socket = -1 ∨ (c.acceptedSocket = -1 ∧ c.bind = 1) then
    let c := chatFabricConsetup x.setup c
    if c.socket = -1 then .ok ⟨.socket, c, p, b⟩ else receiveAll crypto callback x c p b
  else receiveAll crypto callback x c p b

/-- What one call of chatFabric_controller meets; each time around its wait loop it calls
    chatFabric_device. -/
structure ControllerAnswers where
  setup : Setup
  random : PacketRandom
  sends : Nat → Attempt Nat
  waits : Nat → Answers

inductive Sent where
  | failed (c : Connection) (p : Party) (b : MsgBuffer)
  | waits (c : Connection) (p : Party) (b : MsgBuffer)

/-- The message that went out as a new configuration is freed. -/
def afterAction (a : ChatFabricAction) (p : Party) (b : MsgBuffer) : MsgBuffer :=
  if p.pair.state = .paired ∧ a.action = actionSetConfig then { b with length := 0, msg := none } else b

/-- chatFabric_controller up to its wait loop; n is not looked at behind the send loop. -/
def sendRequest (crypto : Crypto) (a : ChatFabricAction) (msg : Option Bytes) (y : ControllerAnswers)
    (c : Connection) (p : Party) (b : MsgBuffer) : Except Halt Sent :=
  let c := chatFabricConsetup y.setup c
  if c.socket = -1 then .ok (.failed c p b)
  else do
    let encoded ← checked (ChatFabric.chatFabricController crypto p a msg b y.random)
    let b := afterAction a p b
    let p := { p with pair := encoded.pair }
    match retryLoop y.sends 3 0 c with
    | (.noSocket, c) => .ok (.failed c p b)
    | (.left _, c) => .ok (.waits c p b)

structure Waiting where
  calls : Nat
  last : Returned

def waitGuard (s : Waiting) : Bool := s.last.e = .ok ∧ s.last.party.pair.state ≠ .paired

def waitBody (crypto : Crypto) (callback : Option Callback) (y : ControllerAnswers) (s : Waiting) :
    Except Halt Waiting := do
  let r ← chatFabricDevice crypto callback (y.waits s.calls) s.last.c s.last.party s.last.buffer
  .ok ⟨s.calls + 1, r⟩

def waitLoop (crypto : Crypto) (callback : Option Callback) (y : ControllerAnswers) (fuel : Nat)
    (s : Waiting) : Option (Except Halt Waiting) :=
  match waitBody crypto callback y s with
  | .error h => some (.error h)
  | .ok t => iterate waitGuard (waitBody crypto callback y) fuel t

def chatFabricController (crypto : Crypto) (callback : Option Callback) (a : ChatFabricAction)
    (msg : Option Bytes) (y : ControllerAnswers) (fuel : Nat) (c : Connection) (p : Party)
    (b : MsgBuffer) : Option (Except Halt Returned) :=
  match sendRequest crypto a msg y c p b with
  | .error h => some (.error h)
  | .ok (.failed c p b) => some (.ok ⟨.socket, c, p, b⟩)
  | .ok (.waits c p b) =>
    (waitLoop crypto callback y fuel ⟨0, ⟨.ok, c, p, b⟩⟩).map fun r => r.map Waiting.last

/-- Every one of the three calls fails, and every reconnect behind one gives a socket. -/
def Exhausted {Result : Type} (attempts : Nat → Attempt Result) : Prop :=
  ∀ k < 3, (attempts k).result = none ∧ (attempts k).setup.socket ≠ -1

section
variable {Result : Type} {attempts : Nat → Attempt Result}

theorem consetup_fresh (a : Setup) {c : Connection} (none : c.socket = -1) :
    (chatFabricConsetup a c).socket = a.socket := by
  simp only [chatFabricConsetup, none, ne_eq, not_true_eq_false, and_false, false_and, if_false]
  split
  · rfl
  · split <;> rfl

theorem consetup_given {a : Setup} (given : a.socket ≠ -1) (c : Connection) :
    (chatFabricConsetup a c).socket ≠ -1 := by
  by_cases opened : c.socket = -1
  · rwa [consetup_fresh a opened]
  · unfold chatFabricConsetup
    split
    · exact opened
    · split
      · exact opened
      · split
        · exact opened
        · simp only [given, if_false]
          split <;> exact given

theorem retryLoop_failed (retry : Nat) {k : Nat} (c : Connection) (failed : (attempts k).result = none) :
    ∃ d, d.socket = (attempts k).setup.socket ∧ retryLoop attempts (retry + 1) k c =
      if d.socket = -1 then (.noSocket, d) else retryLoop attempts retry (k + 1) d :=
  ⟨chatFabricConsetup (attempts k).setup { c with acceptedSocket := -1, socket := -1 },
    consetup_fresh _ rfl, by simp only [retryLoop, failed]⟩

theorem retryLoop_succeeded {retry k : Nat} {c : Connection} {n : Result}
    (some : (attempts k).result = some n) : retryLoop attempts (retry + 1) k c = (.left n, c) := by
  simp only [retryLoop, some]

theorem retryLoop_none_iff {retry k : Nat} {c : Connection} :
    (retryLoop attempts retry k c).1 = .left none ↔
      ∀ j < retry, (attempts (k + j)).result = none ∧ (attempts (k + j)).setup.socket ≠ -1 := by
  induction retry generalizing k c with
  | zero => simp [retryLoop]
  | succ retry ih =>
    have shift : (∀ j < retry + 1, (attempts (k + j)).result = none ∧
        (attempts (k + j)).setup.socket ≠ -1) ↔
        ((attempts k).result = none ∧ (attempts k).setup.socket ≠ -1) ∧
          ∀ j < retry, (attempts (k + 1 + j)).result = none ∧
            (attempts (k + 1 + j)).setup.socket ≠ -1 := by
      simp only [Nat.forall_lt_succ_left, Nat.add_zero, Nat.add_assoc, Nat.add_comm 1]
    rw [shift]
    cases call : (attempts k).result with
    | some n => simp [retryLoop_succeeded call]
    | none =>
      obtain ⟨d, socket, loop⟩ := retryLoop_failed retry c call
      rw [loop]
      by_cases gone : d.socket = -1
      · simp [gone, ← socket]
      · rw [if_neg gone, ih]
        simp [gone, ← socket]

theorem retryLoop_some {retry k : Nat} {c : Connection} {n : Result}
    (left : (retryLoop attempts retry k c).1 = .left (some n)) :
    ∃ j < retry, (attempts (k + j)).result = some n := by
  induction retry generalizing k c with
  | zero => simp [retryLoop] at left
  | succ retry ih =>
    cases call : (attempts k).result with
    | some m =>
      rw [retryLoop_succeeded call] at left
      cases left
      exact ⟨0, by omega, call⟩
    | none =>
      obtain ⟨d, socket, loop⟩ := retryLoop_failed retry c call
      rw [loop] at left
      split at left
      · cases left
      · obtain ⟨j, less, result⟩ := ih left
        exact ⟨j + 1, by omega, by rwa [Nat.add_comm j, ← Nat.add_assoc]⟩

theorem exhausted_iff (attempts : Nat → Attempt Result) (c : Connection) :
    (retryLoop attempts 3 0 c).1 = .left none ↔ Exhausted attempts := by
  rw [retryLoop_none_iff]
  simp only [Exhausted, Nat.zero_add]

end

section
variable (crypto : Crypto) (callback : Option Callback) (x : Answers) (c : Connection) (p : Party)
  (b : MsgBuffer)

def Ready (setup : Setup) (c : Connection) : Prop :=
  c.socket = -1 ∨ (c.acceptedSocket = -1 ∧ c.bind = 1) → (chatFabricConsetup setup c).socket ≠ -1

/-- ERROR_OK is returned only for a datagram that one of the receives gave, and that was processed;
    so there is an error where all of them fail. -/
def DeviceTells : Prop :=
  ∀ r, chatFabricDevice crypto callback x c p b = .ok r → r.e = .ok →
    ∃ k < 3, ∃ datagram done, (x.receives k).result = some datagram ∧
      ChatFabric.chatFabricDevice crypto callback x.world p { b with length := 0 } datagram = .ok done ∧
      done.e = .ok ∧ r.party = done.party ∧ r.buffer = done.buffer

theorem device_cases :
    (¬ Ready x.setup c ∧ ∃ d, chatFabricDevice crypto callback x c p b =
      .ok ⟨.socket, d, p, { b with length := 0 }⟩) ∨
    (Ready x.setup c ∧ ∃ d, chatFabricDevice crypto callback x c p b =
      receiveAll crypto callback x d p { b with length := 0 }) := by
  by_cases needs : c.socket = -1 ∨ (c.acceptedSocket = -1 ∧ c.bind = 1)
  · by_cases gone : (chatFabricConsetup x.setup c).socket = -1
    · refine .inl ⟨fun ready => ready needs gone, chatFabricConsetup x.setup c, ?_⟩
      simp only [chatFabricDevice, needs, if_true, gone]
    · refine .inr ⟨fun _ => gone, chatFabricConsetup x.setup c, ?_⟩
      simp only [chatFabricDevice, needs, if_true, gone, if_false]
  · refine .inr ⟨fun need => absurd need needs, c, ?_⟩
    simp only [chatFabricDevice, needs, if_false]

theorem receiveAll_exhausted (exhausted : Exhausted x.receives) :
    ∃ d, receiveAll crypto callback x c p b = .ok ⟨.ok, d, p, b⟩ := by
  have left := (exhausted_iff x.receives c).mpr exhausted
  cases loop : retryLoop x.receives 3 0 c with
  | mk out d =>
    rw [loop] at left
    cases left
    exact ⟨d, by simp only [receiveAll, loop]⟩

theorem receiveAll_ok {r : Returned} (received : ¬ Exhausted x.receives)
    (run : receiveAll crypto callback x c p b = .ok r) (ok : r.e = .ok) :
    ∃ k < 3, ∃ datagram done, (x.receives k).result = some datagram ∧
      ChatFabric.chatFabricDevice crypto callback x.world p b datagram = .ok done ∧
      done.e = .ok ∧ r.party = done.party ∧ r.buffer = done.buffer := by
  cases loop : retryLoop x.receives 3 0 c with
  | mk out d =>
    rw [receiveAll, loop] at run
    rcases out with _ | _ | datagram <;> dsimp only at run
    · cases run
      cases ok
    · exact absurd ((exhausted_iff x.receives c).mp (by rw [loop])) received
    · obtain ⟨k, less, result⟩ := retryLoop_some (congrArg Prod.fst loop)
      cases call : ChatFabric.chatFabricDevice crypto callback x.world p b datagram with
      | error h =>
        rw [call] at run
        cases run
      | ok done =>
        rw [call] at run
        cases run
        exact ⟨k, less, datagram, done, by simpa using result, call, ok, rfl, rfl⟩

theorem device_tells_iff :
    DeviceTells crypto callback x c p b ↔ ¬ (Ready x.setup c ∧ Exhausted x.receives) := by
  rcases device_cases crypto callback x c p b with ⟨shut, d, run⟩ | ⟨ready, d, run⟩
  · have tells : DeviceTells crypto callback x c p b := by
      intro r returned ok
      rw [run] at returned
      cases returned
      cases ok
    exact iff_of_true tells fun both => shut both.1
  · constructor
    · rintro tells ⟨-, exhausted⟩
      obtain ⟨d, silent⟩ := receiveAll_exhausted crypto callback x d p { b with length := 0 } exhausted
      obtain ⟨k, less, datagram, -, result, -⟩ := tells _ (run.trans silent) rfl
      simp [(exhausted k less).1] at result
    · intro not r returned ok
      have received : ¬ Exhausted x.receives := fun exhausted => not ⟨ready, exhausted⟩
      exact receiveAll_ok crypto callback x d p _ received (run.symm.trans returned) ok

end

section
variable (crypto : Crypto) (callback : Option Callback) (a : ChatFabricAction) (msg : Option Bytes)
  (y : ControllerAnswers) (c : Connection) (p : Party) (b : MsgBuffer)

/-- chatFabric_controller waits only after one of its sends, and where all of them fail it
    returns an error. -/
def ControllerTells : Prop :=
  (∀ d q left, sendRequest crypto a msg y c p b = .ok (.waits d q left) →
    ∃ k < 3, ∃ n, (y.sends k).result = some n) ∧
  ((∀ k < 3, (y.sends k).result = none) → ∀ fuel r,
    chatFabricController crypto callback a msg y fuel c p b = some (.ok r) → r.e ≠ .ok)

def Sends : Prop :=
  (chatFabricConsetup y.setup c).socket ≠ -1 ∧
    ∃ encoded, ChatFabric.chatFabricController crypto p a msg b y.random = .ok encoded

theorem sendRequest_loop (sends : Sends crypto a msg y c p b) :
    ∃ q, sendRequest crypto a msg y c p b =
      match retryLoop y.sends 3 0 (chatFabricConsetup y.setup c) with
      | (.noSocket, d) => .ok (.failed d q (afterAction a p b))
      | (.left _, d) => .ok (.waits d q (afterAction a p b)) := by
  obtain ⟨socket, encoded, call⟩ := sends
  refine ⟨{ p with pair := encoded.pair }, ?_⟩
  rw [sendRequest, if_neg socket, call]
  rfl

theorem sendRequest_shut (shut : ¬ Sends crypto a msg y c p b) :
    (∃ h, sendRequest crypto a msg y c p b = .error h) ∨
      ∃ d, sendRequest crypto a msg y c p b = .ok (.failed d p b) := by
  by_cases gone : (chatFabricConsetup y.setup c).socket = -1
  · exact .inr ⟨chatFabricConsetup y.setup c, by rw [sendRequest, if_pos gone]⟩
  · cases call : ChatFabric.chatFabricController crypto p a msg b y.random with
    | error f =>
      refine .inl ⟨.fault f, ?_⟩
      rw [sendRequest, if_neg gone, call]
      rfl
    | ok encoded => exact absurd ⟨gone, encoded, call⟩ shut

theorem sendRequest_waits {d : Connection} {q : Party} {left : MsgBuffer}
    (waits : sendRequest crypto a msg y c p b = .ok (.waits d q left)) :
    (∃ k < 3, ∃ n, (y.sends k).result = some n) ∨
      (Sends crypto a msg y c p b ∧ Exhausted y.sends) := by
  by_cases sends : Sends crypto a msg y c p b
  · obtain ⟨q', run⟩ := sendRequest_loop crypto a msg y c p b sends
    rw [run] at waits
    cases loop : retryLoop y.sends 3 0 (chatFabricConsetup y.setup c) with
    | mk out e =>
      rw [loop] at waits
      rcases out with _ | _ | n
      · cases waits
      · exact .inr ⟨sends, (exhausted_iff _ _).mp (congrArg Prod.fst loop)⟩
      · obtain ⟨k, less, result⟩ := retryLoop_some (congrArg Prod.fst loop)
        exact .inl ⟨k, less, n, by simpa using result⟩
  · rcases sendRequest_shut crypto a msg y c p b sends with ⟨h, run⟩ | ⟨e, run⟩
    · rw [run] at waits
      cases waits
    · rw [run] at waits
      cases waits

theorem sendRequest_exhausted (sends : Sends crypto a msg y c p b) (exhausted : Exhausted y.sends) :
    ∃ d q, sendRequest crypto a msg y c p b = .ok (.waits d q (afterAction a p b)) := by
  obtain ⟨q, run⟩ := sendRequest_loop crypto a msg y c p b sends
  have left := (exhausted_iff y.sends (chatFabricConsetup y.setup c)).mpr exhausted
  cases loop : retryLoop y.sends 3 0 (chatFabricConsetup y.setup c) with
  | mk out d =>
    rw [loop] at left run
    cases left
    exact ⟨d, q, run⟩

theorem controller_tells_iff :
    ControllerTells crypto callback a msg y c p b ↔
      ¬ (Sends crypto a msg y c p b ∧ Exhausted y.sends) := by
  constructor
  · rintro ⟨waits, -⟩ ⟨sends, exhausted⟩
    obtain ⟨d, q, run⟩ := sendRequest_exhausted crypto a msg y c p b sends exhausted
    obtain ⟨k, less, n, result⟩ := waits d q _ run
    simp [(exhausted k less).1] at result
  · intro not
    have waits {d : Connection} {q : Party} {left : MsgBuffer}
        (run : sendRequest crypto a msg y c p b = .ok (.waits d q left)) :=
      (sendRequest_waits crypto a msg y c p b run).resolve_right not
    refine ⟨fun d q left run => waits run, fun failed fuel r returned => ?_⟩
    rw [chatFabricController] at returned
    cases run : sendRequest crypto a msg y c p b with
    | error h =>
      rw [run] at returned
      cases returned
    | ok sent =>
      rw [run] at returned
      cases sent with
      | failed d q left =>
        cases returned
        exact FabricError.noConfusion
      | waits d q left =>
        obtain ⟨k, less, n, result⟩ := waits run
        simp [failed k less] at result

/-- While no device call of the wait loop gets a datagram, the loop of an unpaired party does not
    end. -/
theorem waitLoop_endless (unpaired : p.pair.state ≠ .paired)
    (silent : ∀ k, (y.waits k).setup.socket ≠ -1 ∧ Exhausted (y.waits k).receives) (fuel : Nat) :
    waitLoop crypto callback y fuel ⟨0, ⟨.ok, c, p, b⟩⟩ = none := by
  let Inv (s : Waiting) : Prop := s.last.e = .ok ∧ s.last.party.pair.state ≠ .paired
  have step (s : Waiting) (inv : Inv s) :
      ∃ t, waitBody crypto callback y s = .ok t ∧ Inv t := by
    rcases device_cases crypto callback (y.waits s.calls) s.last.c s.last.party s.last.buffer with
      ⟨shut, -⟩ | ⟨-, d, run⟩
    · exact absurd (fun _ => consetup_given (silent s.calls).1 s.last.c) shut
    · obtain ⟨e, none⟩ := receiveAll_exhausted crypto callback (y.waits s.calls) d s.last.party
        { s.last.buffer with length := 0 } (silent s.calls).2
      refine ⟨⟨s.calls + 1, ⟨.ok, e, s.last.party, { s.last.buffer with length := 0 }⟩⟩, ?_, rfl, inv.2⟩
      rw [waitBody, run, none]
      rfl
  have keep (s : Waiting) (inv : Inv s) :
      ∃ t, Pass waitGuard (waitBody crypto callback y) s t ∧ Inv t := by
    obtain ⟨t, body, later⟩ := step s inv
    exact ⟨t, ⟨decide_eq_true inv, body⟩, later⟩
  obtain ⟨t, body, later⟩ := step ⟨0, ⟨.ok, c, p, b⟩⟩ ⟨rfl, unpaired⟩
  rw [waitLoop, body]
  exact iterate_endless keep later fuel

end

/-- Both calls keep to their promise exactly where they do not run out of retries with a socket
    in hand: chatFabric_device then returns ERROR_OK, and chatFabric_controller goes on to wait. -/
theorem calls_tell_iff (crypto : Crypto) (callback : Option Callback) :
    (∀ x c p b, DeviceTells crypto callback x c p b ↔ ¬ (Ready x.setup c ∧ Exhausted x.receives)) ∧
    ∀ a msg y c p b, ControllerTells crypto callback a msg y c p b ↔
      ¬ (Sends crypto a msg y c p b ∧ Exhausted y.sends) :=
  ⟨device_tells_iff crypto callback, controller_tells_iff crypto callback⟩

def failing (Result : Type) : Nat → Attempt Result := fun _ => ⟨none, ⟨4, 5⟩⟩

def udp : Connection := ⟨.dgram, 0, 3, -1⟩

def fresh : Party := ⟨default, default, none, none⟩

def silence : Answers := ⟨⟨4, 5⟩, failing Bytes, DecodeFailure.quietWorld⟩

/-- Three calls that fail, behind each of which a new socket is there. -/
theorem retries_untold :
    ¬ DeviceTells default none silence udp fresh default ∧
    ¬ ControllerTells default none ⟨0, 0, 0, 0, 0, none⟩ none
      ⟨⟨4, 5⟩, default, failing Nat, fun _ => silence⟩ udp fresh default := by
  have exhausted (Result : Type) : Exhausted (failing Result) := fun k _ =>
    ⟨rfl, show (4 : Int32) ≠ -1 by decide⟩
  constructor
  · rw [device_tells_iff]
    have ready : Ready ⟨4, 5⟩ udp := fun _ => consetup_given (by decide) udp
    exact fun not => not ⟨ready, exhausted Bytes⟩
  · rw [controller_tells_iff]
    refine fun not => not ⟨⟨consetup_given (by decide) udp, ?_⟩, exhausted Nat⟩
    have whole : (ChatFabric.chatFabricController default fresh ⟨0, 0, 0, 0, 0, none⟩ none default
        default).isOk = true := by decide +kernel
    cases call : ChatFabric.chatFabricController default fresh ⟨0, 0, 0, 0, 0, none⟩ none default default with
    | ok encoded => exact ⟨encoded, rfl⟩
    | error f =>
      rw [call] at whole
      cases whole

end HostCalls
