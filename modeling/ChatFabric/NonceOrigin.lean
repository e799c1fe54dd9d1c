import ChatFabric.Authentication
import ChatFabric.DecodeHistory
import ChatFabric.Runs

/- Where the nonce of a pairing record comes from. The decoder has one case for the tag, at
   whatever level it stands; the level is noted along the history of the datagram. -/
namespace NonceOrigin
open ByteStrings Runs ChatFabric DecodeTermination

/-- A nonce tag: its bytes, and the tags of the sections around it, from the innermost on. -/
structure Sighting where
  nonce : Block 8
  sections : List Iteration

structure Watch where
  sections : List Iteration
  nonces : List Sighting

def nonceAt (x : Iteration) : Block 8 := .ofBytes 8 (slice x.b x.afterTag.i 8)

namespace Watch

def start : Watch := ⟨[], []⟩

def note (o : Watch) : Moment → Watch
  | .tag x =>
    if tagAt x = some .nonce then { o with nonces := o.nonces ++ [⟨nonceAt x, o.sections⟩] } else o
  | .enter x => { o with sections := x :: o.sections }
  | .leave => { o with sections := o.sections.tail }

def last (o : Watch) : Block 8 := (o.nonces.getLast?.map Sighting.nonce).getD (.zero 8)

end Watch

def sightings (h : List Moment) : List Sighting := (h.foldl Watch.note .start).nonces

def VerifiedEnvelope (env : DecodeEnv) (x : Iteration) : Prop :=
  tagAt x = some .encryptedEnvelope ∧
    ∃ n, verifySection env x.b x.afterTag.i x.s.cp.envelopeLength n = .ok true

variable {env : DecodeEnv}

def Entered (env : DecodeEnv) (x : Iteration) : Prop :=
  ∃ t decrypted, x.opened env = some (.ok (.section t decrypted))

theorem verified_of_entered {x : Iteration} (entered : Entered env x)
    (envelope : tagAt x = some .encryptedEnvelope) : VerifiedEnvelope env x := by
  obtain ⟨t, decrypted, enter⟩ := entered
  have known : x.case env = some .encryptedEnvelope := case_of_tag (byte_of_tagAt envelope)
  simp only [Iteration.opened, known, Option.some.injEq] at enter
  exact ⟨envelope, (openEnvelope_opens enter).verified⟩

/-- The watch and the decoder agree: the frame is the sections the call stands in. -/
structure Agrees (env : DecodeEnv) (f : List Iteration) (o : Watch) (s : Decoding) : Prop where
  nonce : s.cp.nonce = o.last
  sections : o.sections = f
  entered : ∀ x ∈ f, Entered env x
  sighted : ∀ n ∈ o.nonces, ∀ x ∈ n.sections, Entered env x

theorem Agrees.of_same {f : List Iteration} {o : Watch} {s t : Decoding} (agrees : Agrees env f o s)
    (same : t.cp.nonce = s.cp.nonce) : Agrees env f o t :=
  { agrees with nonce := same.trans agrees.nonce }

theorem note_other (o : Watch) {x : Iteration} (other : tagAt x ≠ some .nonce) :
    o.note (.tag x) = o := if_neg other

theorem nonceAt_of_read {x : Iteration} {v : Bytes} (size : v.length = 8)
    (read : readAt x.b x.afterTag.i v.length = .ok v) : nonceAt x = .ofBytes 8 v := by
  rw [size] at read
  rw [nonceAt, ← slice_of_readAt read]

theorem tag_agrees {f : List Iteration} {o : Watch} {x : Iteration} {tag : Tag}
    (here : x.b[x.s.i]? = some tag.toByte) (agrees : Agrees env f o x.s) :
    Stores x.afterTag (fun v t => readAt x.b x.afterTag.i v.length = .ok v →
      ∀ i, Agrees env f (o.note (.tag x)) { t with i := i }) (tagCase env x.afterTag tag) := by
  have named := tagAt_of_byte here
  by_cases nonce : tag = .nonce
  · subst nonce
    simp only [tagCase, stores_field]
    intro v size read i
    have noted : o.note (.tag x) = { o with nonces := o.nonces ++ [⟨nonceAt x, o.sections⟩] } :=
      if_pos named
    rw [noted]
    refine ⟨?_, agrees.sections, agrees.entered, fun n mem => ?_⟩
    · simp [Watch.last, nonceAt_of_read size read]
    · rcases List.mem_append.mp mem with old | new
      · exact agrees.sighted n old
      · rw [List.mem_singleton.mp new, agrees.sections]
        exact agrees.entered
  · rw [note_other o (by simpa [named] using nonce)]
    exact (tagCase_untouched x.afterTag tag).mono fun v t untouched _ i =>
      agrees.of_same (untouched.nonce nonce)

theorem note_uncopied (o : Watch) {x : Iteration}
    (noCopy : ∀ width move store, x.case env ≠ some (.copy width move store)) :
    o.note (.tag x) = o := by
  apply note_other
  intro named
  exact noCopy _ _ _ (case_of_tag (byte_of_tagAt named))

theorem observes : Observes env Watch.note (Agrees env) where
  copies := tag_agrees
  rejects := by
    intro f o x noCopy agrees w
    rw [note_uncopied o noCopy]
    exact ⟨{ x.s with cp.wasEncrypted := w }, rfl, agrees.of_same rfl⟩
  enters := by
    intro f o x t decrypted enter agrees
    obtain ⟨⟨w, packet⟩, _, _⟩ := opened_state enter
    simp only [Opened.state, Iteration.afterTag] at packet
    rw [note_uncopied o (opened_uncopied enter)]
    obtain ⟨nonce, rfl, entered, sighted⟩ := agrees
    refine ⟨x :: o.sections, ⟨?_, rfl, ?_, sighted⟩, ?_⟩
    · simp only [Decoding.start, packet]
      exact nonce
    · intro y mem
      rcases List.mem_cons.mp mem with rfl | mem
      · exact ⟨t, decrypted, enter⟩
      · exact entered y mem
    · rintro o' u allocs ⟨nonce', sections', _, sighted'⟩
      exact ⟨nonce', by simp [Watch.note, sections'], entered, sighted'⟩

theorem decoded_nonce {random : PacketRandom} {fuel len allocs : Nat} {b : Bytes} {ret : Int}
    {cp : ChatPacket}
    (run : chatPacketDecode env fuel (chatPacketInit0 random) 0 b len = .returned ret cp allocs) :
    let o := (history env fuel (chatPacketInit0 random) 0 b len).foldl Watch.note .start
    cp.nonce = o.last ∧ ∀ n ∈ o.nonces, ∀ x ∈ n.sections, Entered env x := by
  have watch : Observes env Watch.note (Agrees env) := observes
  have start : Agrees env [] .start (.start (chatPacketInit0 random) 0) :=
    ⟨rfl, rfl, by simp, by simp [Watch.start]⟩
  obtain ⟨_, returned⟩ := watch.follows (fun _ _ => True) (fun _ _ _ _ => trivial) start fuel b len
  obtain ⟨u, rfl, agrees⟩ := returned ret cp allocs run
  exact ⟨agrees.nonce, agrees.sighted⟩

section device
variable (crypto : Crypto) (callback : Option Callback)

structure Call where
  w : World
  b : MsgBuffer
  datagram : Bytes

def next (p : Party) (a : Call) : Party :=
  match chatFabricDevice crypto callback a.w p a.b a.datagram with
  | .ok done => done.party
  | .error _ => p

def nonces (p : Party) (a : Call) : List Sighting :=
  sightings (history (decodeEnv crypto a.w p.pair) a.w.fuel (chatPacketInit0 a.w.random) 0
    (receiveBuffer a.datagram) (min a.datagram.length bufferSize))

/-- The nonce of the record is the old one, or stood inside a verified envelope. -/
def FromEnvelope (p : Party) (a : Call) : Prop :=
  (next crypto callback p a).pair.nonce = p.pair.nonce ∨
    ∃ n ∈ nonces crypto p a, (next crypto callback p a).pair.nonce = n.nonce ∧
      ∃ x ∈ n.sections, VerifiedEnvelope (decodeEnv crypto a.w p.pair) x

def TakesNonce (p : Party) (a : Call) : Prop :=
  p.pair.state = .nonceSetup ∧
    ∃ cp b, receivePacket crypto a.w p.pair { a.b with length := 0 } a.datagram = .ok (cp, b) ∧
      misaddressed p.config cp = false ∧ cp.cmd = .nonceSend

/-- The last nonce of a datagram that brings one stands inside an envelope. -/
def LastEnveloped (p : Party) (a : Call) : Prop :=
  TakesNonce crypto p a →
    ∃ n, (nonces crypto p a).getLast? = some n ∧
      ∃ x ∈ n.sections, tagAt x = some .encryptedEnvelope

end device

section steps
variable {crypto : Crypto} {callback : Option Callback} {p : Party} {a : Call} {cp : ChatPacket}

theorem stateMachine_nonce {files : FileAccess} {reply : ChatPacket} {replyCmd : Command} {o : Outcome}
    (ran : stateMachine crypto files p cp reply replyCmd = .ok o) :
    o.party.pair.nonce = p.pair.nonce ∨ (misaddressed p.config cp = false ∧ cp.cmd = .nonceSend ∧
      p.pair.state = .nonceSetup ∧ o.party.pair.nonce = cp.nonce) := by
  rcases stateMachine_cases ran with ⟨_, rfl⟩ | ⟨here, handled, switched, rfl⟩
  · exact .inl rfl
  · rw [saved_pair]
    have step := commandSwitch_step switched
    generalize handled.party.pair = pair at step ⊢
    cases step with
    | nonced cmd setup => exact .inr ⟨here, cmd, setup, rfl⟩
    | _ => exact .inl rfl

theorem runCallback_nonce (quiet : ∀ f ∈ callback, ∀ cp a, (f cp a).pair.nonce = a.pair.nonce)
    (o : Outcome) : (runCallback callback cp o).party.pair.nonce = o.party.pair.nonce := by
  unfold runCallback
  split
  · rfl
  · rename_i f
    split
    · exact quiet f rfl _ _
    · rfl

theorem received_nonce {b received : MsgBuffer}
    (decoded : receivePacket crypto a.w p.pair b a.datagram = .ok (cp, received))
    (decodable : cp.cmd ≠ .packetDecryptFailed) :
    cp.nonce = ((nonces crypto p a).getLast?.map Sighting.nonce).getD (.zero 8) ∧
      ∀ n ∈ nonces crypto p a, ∀ x ∈ n.sections, Entered (decodeEnv crypto a.w p.pair) x := by
  unfold receivePacket at decoded
  split at decoded
  · rename_i ret got allocs run
    split at decoded
    · cases decoded
      exact absurd rfl decodable
    · cases filled : fillPayload a.w allocs got b with
      | error f => simp [filled, checked, Except.mapError, Except.map] at decoded
      | ok b' =>
        simp only [filled, checked, Except.mapError, Except.map] at decoded
        cases decoded
        exact decoded_nonce run
  · cases decoded
  · cases decoded

theorem next_nonce (crypto : Crypto) (p : Party) (a : Call)
    (quiet : ∀ f ∈ callback, ∀ cp a, (f cp a).pair.nonce = a.pair.nonce) :
    (next crypto callback p a).pair.nonce = p.pair.nonce ∨ (TakesNonce crypto p a ∧
      (next crypto callback p a).pair.nonce =
        ((nonces crypto p a).getLast?.map Sighting.nonce).getD (.zero 8) ∧
      ∀ n ∈ nonces crypto p a, ∀ x ∈ n.sections, Entered (decodeEnv crypto a.w p.pair) x) := by
  unfold next
  split
  · rename_i done run
    obtain ⟨cp, received, decoded, handled⟩ := chatFabricDevice_ok_iff.mp run
    obtain ⟨o, sent, ran, replied, rfl⟩ := handlePacket_ok handled
    have sentNonce := (Sends.nonce (sendReply_sends replied)).trans (runCallback_nonce quiet o)
    rcases stateMachine_nonce ran with same | ⟨here, cmd, setup, taken⟩
    · exact .inl (sentNonce.trans same)
    · obtain ⟨last, entered⟩ := received_nonce decoded (by simp [cmd])
      exact .inr ⟨⟨setup, cp, received, decoded, here, cmd⟩, sentNonce.trans (taken.trans last),
        entered⟩
  · exact .inl rfl

theorem next_fromEnvelope (quiet : ∀ f ∈ callback, ∀ cp a, (f cp a).pair.nonce = a.pair.nonce)
    (enveloped : LastEnveloped crypto p a) : FromEnvelope crypto callback p a := by
  rcases next_nonce crypto p a quiet with same | ⟨takes, last, entered⟩
  · exact .inl same
  · obtain ⟨n, found, x, around, envelope⟩ := enveloped takes
    have mem := List.mem_of_getLast? found
    rw [found] at last
    exact .inr ⟨n, mem, last, x, around, verified_of_entered (entered n mem x around) envelope⟩

end steps

/-- In every run whose nonces come last inside an envelope, the nonce of the record only ever
    changes to one from inside an envelope that was verified, in the datagram of that call. -/
theorem nonce_from_envelope (crypto : Crypto) (callback : Option Callback)
    (quiet : ∀ f ∈ callback, ∀ cp a, (f cp a).pair.nonce = a.pair.nonce) (p : Party)
    (inputs : List Call)
    (enveloped : EveryStep (next crypto callback) (LastEnveloped crypto) p inputs) :
    EveryStep (next crypto callback) (FromEnvelope crypto callback) p inputs := by
  have each : ∀ s a, True → LastEnveloped crypto s a → FromEnvelope crypto callback s a :=
    fun _ _ _ met => next_fromEnvelope quiet met
  exact every_step_of (fun _ _ _ => trivial) each trivial enveloped

def toLamp (cmd : Command) (rest : Bytes) : Call :=
  ⟨Authentication.world, default,
    Tag.cmd.toByte :: be32 cmd.toCode ++
    Tag.to0.toByte :: List.replicate 16 7 ++ Tag.to1.toByte :: List.replicate 16 8 ++ rest⟩

def ones : Bytes := Tag.nonce.toByte :: List.replicate 8 1

def envelope : Bytes :=
  Tag.envelopeLength.toByte :: be32 25 ++
  Tag.encryptedEnvelope.toByte :: s20Crypt (.zero 32) (.zero 8) ones ++ List.replicate 16 0

def newLamp : Party := ⟨Authentication.lamp, cfPairInit zeroPairing (.zero 8), none, none⟩

theorem newLamp_started :
    deviceStart default Authentication.lamp (.zero 8) none none = .ok newLamp := rfl

def handshake : List Call := [toLamp .pairRequest [], toLamp .publickeyAck []]

abbrev program : Option Callback := some deviceCallBack

theorem handshake_waits :
    newLamp.pair.state ≠ .nonceSetup ∧
      (next default program newLamp (toLamp .pairRequest [])).pair.state ≠ .nonceSetup := by
  decide +kernel

theorem nonce_from_envelope_handshake :
    EveryStep (next default program) (FromEnvelope default program) newLamp
      (handshake ++ [toLamp .nonceSend envelope]) := by
  have sealed : ((nonces default (run (next default program) newLamp handshake)
      (toLamp .nonceSend envelope)).getLast?.any fun n =>
        n.sections.any fun x => tagAt x = some .encryptedEnvelope) = true := by
    decide +kernel
  apply nonce_from_envelope default program
  · rintro f ⟨⟩ cp a
    rfl
  · refine every_step_append.mpr ⟨⟨fun takes => absurd takes.1 handshake_waits.1,
      fun takes => absurd takes.1 handshake_waits.2, trivial⟩, fun _ => ?_, trivial⟩
    obtain ⟨n, last, around⟩ := (Option.any_eq_true _ _).mp sealed
    obtain ⟨x, mem, here⟩ := List.any_eq_true.mp around
    exact ⟨n, last, x, mem, of_decide_eq_true here⟩

theorem clear_nonce_taken :
    ¬ ∀ p inputs, deviceStart default Authentication.lamp (.zero 8) none none = .ok p →
      EveryStep (next default program) (FromEnvelope default program) p inputs := by
  intro always
  obtain ⟨_, third, _⟩ := every_step_append.mp
    (always newLamp (handshake ++ [toLamp .nonceSend ones]) newLamp_started)
  have changed : (next default program (run (next default program) newLamp handshake)
      (toLamp .nonceSend ones)).pair.nonce ≠ (run (next default program) newLamp handshake).pair.nonce := by
    decide +kernel
  have outside : ((nonces default (run (next default program) newLamp handshake)
      (toLamp .nonceSend ones)).all fun n => n.sections.isEmpty) = true := by
    decide +kernel
  rcases third with same | ⟨n, mem, _, x, around, _⟩
  · exact changed same
  · rw [List.isEmpty_iff.mp (List.all_eq_true.mp outside n mem)] at around
    cases around

end NonceOrigin
