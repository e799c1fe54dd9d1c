import ChatFabric.Authentication
import ChatFabric.Handshake
import ChatFabric.PacketRoundTrip

/- Where a sealed section may stand. Its MAC is over the ciphertext, under a key both sides
   share for everything: the tag it comes under, the nonce it is opened with and who sealed
   it are no part of what is verified. -/
namespace SectionPlaces
open ByteStrings WhileLoop TagStream Runs ChatFabric
open Handshake (Side)

inductive SectionKind where
  | envelope | payload
  deriving DecidableEq

structure Sealed where
  sender : Side
  kind : SectionKind
  key : Block 32
  nonce : Block 8
  plain : Bytes
  deriving DecidableEq

def Sealed.cipher (e : Sealed) : Bytes := s20Crypt e.key e.nonce e.plain

def sealedBy (side : Side) (cp : ChatPacket) (pair : ChatFabricPairing) :
    PacketType → Except Fault (List Sealed)
  | .nonce => do
    let envelope ← (encodeFields (.calloc envelopeRoom.toNat) (envelopeFields cp pair)).map OutBuf.msg
    .ok [⟨side, .envelope, pair.sharedkey, pair.nullnonce, envelope⟩]
  | .data => do
    let controls ← listedControls cp
    let payload ← (encodeFields (.calloc (plainLength cp controls).toNat)
      (payloadFields cp controls true)).map OutBuf.msg
    .ok [⟨side, .payload, pair.sharedkey, chatPacketCalcNonce (pair.serial + 1) pair.nonce, payload⟩]
  | .command | .publickey => .ok []

/-- The records of the two parties, and every section they have sealed so far. -/
structure Link where
  pair : Side → ChatFabricPairing
  log : List Sealed

/-- What the parties do in a run: encode a packet, decode a datagram from anywhere, and take
    the uuid of a pair request. -/
inductive Turn where
  | encode (side : Side) (cp : ChatPacket) (type : PacketType)
  | decode (side : Side) (w : World) (datagram : Bytes)
  | address (side : Side) (uuid : UuidTuple)

def next (crypto : Crypto) (s : Link) : Turn → Link
  | .encode side cp type =>
    match chatPacketEncode crypto cp (s.pair side) true type, sealedBy side cp (s.pair side) type with
    | .ok e, .ok sections => ⟨Function.update s.pair side e.pair, s.log ++ sections⟩
    | _, _ => s
  | .decode _ _ _ => s
  | .address side uuid =>
    { s with pair := Function.update s.pair side { s.pair side with uuid := uuid } }

def Sealed.bytes (crypto : Crypto) (e : Sealed) : Bytes := sealBytes crypto e.key e.nonce e.plain

theorem Sealed.length_bytes (crypto : Crypto) (e : Sealed) :
    (e.bytes crypto).length = e.plain.length + 16 := length_sealBytes e.key e.nonce e.plain

theorem mem_message {cp : ChatPacket} {room : UInt32} {first : UInt8 × TagData} {tag : Tag}
    {sec msg : Bytes} {length : UInt32} (all : sec.length = length.toNat)
    (run : encodeMessage cp room [first, tagData8 tag (some sec) length] = .ok msg) :
    sec <:+: msg := by
  simp only [encodeMessage, Except.map] at run
  split at run <;> cases run
  rename_i ob filled
  obtain ⟨_, out, _⟩ := encodeFields_written (Nat.zero_le _) filled
  have whole : sec.take length.toNat = sec := List.take_of_length_le (Nat.le_of_eq all)
  rw [plain_append] at out
  refine ⟨fieldBytes (plainFields (headerFields cp)) ++ first.1 :: first.2.plain ++ [tag.toByte],
    List.replicate (ob.room - ob.out.length) 0, ?_⟩
  rw [OutBuf.msg, out]
  simp [plainFields, fieldBytes, tagData8, TagData.plain, OutBuf.calloc, whole]

theorem encode_carries {crypto : Crypto} (side : Side) {cp : ChatPacket} {pair : ChatFabricPairing}
    {type : PacketType} {done : Encoded}
    (encoded : chatPacketEncode crypto cp pair true type = .ok done) :
    ∃ sections, sealedBy side cp pair type = .ok sections ∧
      ∀ e ∈ sections, e.bytes crypto <:+: done.msg := by
  cases type with
  | command | publickey => exact ⟨[], rfl, by simp⟩
  | nonce =>
    simp only [chatPacketEncode, encodeNonce, Except.map, bind, Except.bind, if_true] at encoded
    cases filled : encodeFields (.calloc envelopeRoom.toNat) (envelopeFields cp pair) with
    | error stop => simp [filled] at encoded
    | ok envelope =>
      obtain ⟨room, _, inside⟩ := encodeFields_written (Nat.zero_le _) filled
      simp only [filled] at encoded
      split at encoded <;> cases encoded
      rename_i msg message
      refine ⟨[⟨side, .envelope, pair.sharedkey, pair.nullnonce, envelope.msg⟩],
        by simp only [sealedBy, filled, Except.map, bind, Except.bind], ?_⟩
      simp only [List.mem_singleton, forall_eq]
      refine mem_message ?_ message
      rw [Sealed.length_bytes, length_msg inside, room]
      rfl
  | data =>
    obtain ⟨controls, payload, seals⟩ := encodeData_seals encoded
    refine ⟨[⟨side, .payload, pair.sharedkey, chatPacketCalcNonce (pair.serial + 1) pair.nonce,
      payload.msg⟩], by
        simp only [sealedBy, seals.listed, seals.filled, Except.map, bind, Except.bind], ?_⟩
    simp only [List.mem_singleton, forall_eq]
    exact mem_message seals.size seals.message

/-- Where an iteration of the decoder is about to open a section: under which tag, with which
    nonce, and on what ciphertext. -/
structure Place where
  kind : SectionKind
  nonce : Block 8
  cipher : Bytes

def place (env : DecodeEnv) (x : Iteration) : Option Place :=
  match x.case env with
  | some .encryptedEnvelope => some
      ⟨.envelope, env.pair.nullnonce, slice x.b x.afterTag.i (lessMac x.s.cp.envelopeLength)⟩
  | some .encryptedPayload => some
      ⟨.payload, chatPacketCalcNonce x.s.cp.serial env.pair.mynonce,
        slice x.b x.afterTag.i (lessMac x.s.cp.payloadLength)⟩
  | _ => none

section
variable (crypto : Crypto) (s : Link) (side : Side) (w : World) (datagram : Bytes)

def VisitsDatagram (x : Iteration) : Prop :=
  ∃ fuel, Visits (decodeEnv crypto w (s.pair side)) fuel (chatPacketInit0 w.random) 0
    (receiveBuffer datagram) (min datagram.length bufferSize) x

/-- The MAC is accepted at a place, and the bytes go to the recursive decode. -/
def Accepts (at' : Place) (decrypted : Bytes) : Prop :=
  ∃ x t, VisitsDatagram crypto s side w datagram x ∧
    place (decodeEnv crypto w (s.pair side)) x = some at' ∧
    x.opened (decodeEnv crypto w (s.pair side)) = some (.ok (.section t decrypted))

end

/-- Nobody finds a MAC under the shared key for a ciphertext that no party sealed. -/
def Unforged (crypto : Crypto) (s : Link) : Turn → Prop
  | .decode side w datagram => ∀ p decrypted, Accepts crypto s side w datagram p decrypted →
      ∃ e ∈ s.log, e.cipher = p.cipher
  | _ => True

/-- Every sealed section that a datagram carries stands where its sender put it: it is the
    other party's, under the tag of its kind, and opened with the nonce it was sealed with. -/
def InPlace (crypto : Crypto) (s : Link) : Turn → Prop
  | .decode side w datagram => ∀ x p, VisitsDatagram crypto s side w datagram x →
      place (decodeEnv crypto w (s.pair side)) x = some p →
      ∀ e ∈ s.log, e.cipher = p.cipher →
        e.sender = side.other ∧ e.kind = p.kind ∧ e.nonce = p.nonce
  | _ => True

def Faithful (crypto : Crypto) (s : Link) : Turn → Prop
  | .decode side w datagram => ∀ p decrypted, Accepts crypto s side w datagram p decrypted →
      ∃ e ∈ s.log, e.sender = side.other ∧ e.kind = p.kind ∧ e.plain = decrypted
  | _ => True

structure Keyed (key : Block 32) (s : Link) : Prop where
  pair : ∀ side, (s.pair side).sharedkey = key
  log : ∀ e ∈ s.log, e.key = key

variable {crypto : Crypto} {key : Block 32}

theorem decryptSection_ok {env : DecodeEnv} {b decrypted : Bytes} {i n : Nat} {length : UInt32}
    {nonce : Block 8} (run : decryptSection env b i length n nonce = .ok decrypted) :
    decrypted = s20Crypt env.pair.sharedkey nonce (slice b i (lessMac length)) := by
  simp only [decryptSection, readAt, bind, Except.bind] at run
  split at run
  · cases run
  · rename_i cipher read
    split at read <;> cases read
    split at run <;> cases run
    rfl

theorem opened_decrypts {env : DecodeEnv} {x : Iteration} {p : Place} {t : Decoding}
    {decrypted : Bytes} (here : place env x = some p)
    (opened : x.opened env = some (.ok (.section t decrypted))) :
    decrypted = s20Crypt env.pair.sharedkey p.nonce p.cipher := by
  simp only [Iteration.opened] at opened
  split at opened
  · rename_i known
    simp only [place, known, Option.some.injEq] at here
    subst here
    obtain ⟨_, run⟩ := (openEnvelope_opens (Option.some.inj opened)).decrypts
    exact decryptSection_ok run
  · rename_i known
    simp only [place, known, Option.some.injEq] at here
    subst here
    obtain ⟨_, run⟩ := (openPayload_opens (Option.some.inj opened)).decrypts
    exact decryptSection_ok run
  · cases opened

theorem Sealed.opens (e : Sealed) : s20Crypt e.key e.nonce e.cipher = e.plain :=
  Salsa20.crypt_crypt e.key e.nonce e.plain

theorem faithful_of_inPlace {s : Link} (keyed : Keyed key s) (a : Turn)
    (met : Unforged crypto s a ∧ InPlace crypto s a) : Faithful crypto s a := by
  obtain ⟨unforged, inPlace⟩ := met
  cases a with
  | decode side w datagram =>
    intro p decrypted accepts
    obtain ⟨e, logged, same⟩ := unforged p decrypted accepts
    obtain ⟨x, t, visits, here, opened⟩ := accepts
    obtain ⟨sender, kind, nonce⟩ := inPlace x p visits here e logged same
    refine ⟨e, logged, sender, kind, ?_⟩
    have shared : (decodeEnv crypto w (s.pair side)).pair.sharedkey = e.key := by
      rw [keyed.log e logged]
      exact keyed.pair side
    rw [opened_decrypts here opened, shared, ← same, ← nonce, e.opens]
  | encode | address => trivial

theorem encode_sharedkey {cp : ChatPacket} {pair : ChatFabricPairing} {type : PacketType} {e : Encoded}
    (encoded : chatPacketEncode crypto cp pair true type = .ok e) :
    e.pair.sharedkey = pair.sharedkey := by
  by_cases data : type = .data
  · subst data
    rw [(encodeData_pair encoded).1]
  · rw [(encode_other data encoded).1]

theorem sealedBy_key {side : Side} {cp : ChatPacket} {pair : ChatFabricPairing} {type : PacketType}
    {sections : List Sealed} (run : sealedBy side cp pair type = .ok sections) :
    ∀ e ∈ sections, e.key = pair.sharedkey := by
  cases type with
  | command | publickey =>
    cases run
    simp
  | nonce =>
    simp only [sealedBy, bind, Except.bind] at run
    split at run <;> cases run
    simp
  | data =>
    simp only [sealedBy, bind, Except.bind] at run
    split at run
    · cases run
    · split at run <;> cases run
      simp

theorem next_keyed {s : Link} (a : Turn) (keyed : Keyed key s) : Keyed key (next crypto s a) := by
  cases a with
  | encode side cp type =>
    simp only [next]
    split
    · rename_i e sections encoded ran
      constructor
      · intro other
        rcases eq_or_ne other side with rfl | differ
        · simp [encode_sharedkey encoded, keyed.pair]
        · simp [differ, keyed.pair]
      · intro x member
        rcases List.mem_append.mp member with before | new
        · exact keyed.log x before
        · rw [sealedBy_key ran x new, keyed.pair]
    · exact keyed
  | decode => exact keyed
  | address side uuid =>
    refine ⟨fun other => ?_, keyed.log⟩
    rcases eq_or_ne other side with rfl | differ
    · simp [next, keyed.pair]
    · simp [next, differ, keyed.pair]

/-- A call of the device program is three turns of its side at most: the datagram, the uuid,
    and the reply. -/
theorem handlePacket_turns {w : World} {p : Party} {cp : ChatPacket} {b : MsgBuffer}
    {done : DeviceDone} (s : Link) (same : s.pair .device = p.pair) (paired : p.pair.state = .paired)
    (run : handlePacket crypto (some deviceCallBack) w p cp b = .ok done) :
    ∃ uuid reply, (Runs.run (next crypto) s (.address .device uuid :: reply)).pair .device =
        done.party.pair ∧ (reply = [] ∨ ∃ cp type, reply = [.encode .device cp type]) := by
  obtain ⟨o, sent, ran, replied, rfl⟩ := handlePacket_ok run
  obtain ⟨⟨uuid, pair⟩, _⟩ := stateMachine_keeps paired ran
  generalize called : runCallback (some deviceCallBack) cp o = back at replied
  have after : (next crypto s (.address .device uuid)).pair .device = back.party.pair := by
    rw [← called, (runCallback_device cp o).pair, pair]
    simp [next, same]
  unfold sendReply at replied
  split at replied
  · simp only [bind, Except.bind] at replied
    split at replied <;> cases replied
    rename_i e encoded
    refine ⟨uuid, [.encode .device back.reply (replyPacketType back.reply.cmd)], ?_, .inr ⟨_, _, rfl⟩⟩
    rw [← after] at encoded
    obtain ⟨sections, logged, _⟩ := encode_carries .device encoded
    change (next crypto (next crypto s (.address .device uuid)) (.encode .device back.reply _)).pair
      .device = e.pair
    rw [next, encoded, logged]
    simp
  · cases replied
    exact ⟨uuid, [], after, .inl rfl⟩

/-- In every run of two parties with one key, whatever they seal and whatever datagrams come:
    as long as nobody forges a MAC and the sections stand in their places, what is accepted
    opens to what the other party sealed. -/
theorem sections_faithful (crypto : Crypto) (key : Block 32) (start : Link) (keyed : Keyed key start)
    (inputs : List Turn) (unforged : EveryStep (next crypto) (Unforged crypto) start inputs)
    (inPlace : EveryStep (next crypto) (InPlace crypto) start inputs) :
    EveryStep (next crypto) (Faithful crypto) start inputs :=
  every_step_of (fun _ a => next_keyed a) (fun _ a keyed => faithful_of_inPlace keyed a) keyed
    (unforged.and inPlace)

section
variable {env : DecodeEnv} {b : Bytes} {len : Nat}

theorem opened_of_place {x : Iteration} (nowhere : place env x = none) : x.opened env = none := by
  simp only [Iteration.opened]
  split
  · rename_i known
    simp [place, known] at nowhere
  · rename_i known
    simp [place, known] at nowhere
  · rfl

theorem place_field {s : Decoding} {tag : Tag} {v rest : Bytes}
    {store : Bytes → Decoding → Except Fault Decoding}
    (ahead : Ahead b len s (tag.toByte :: v ++ rest)) (small : len < 2 ^ 32)
    (known : tagCase env { s with i := s.i + 1 } tag = .copy v.length v.length store) :
    place env ⟨b, len, s⟩ = none := by
  have tagged : AtTag b len s tag (v ++ rest) := ahead.atTag small
  simp only [place, tagged.case env, known]

theorem reaches_fields (again : DecodeCall) {fields : List Field}
    (each : ∀ f ∈ fields, f.Known env) {s : Decoding} {rest : Bytes}
    (ahead : Ahead b len s (fields.flatMap Field.bytes ++ rest))
    (short : len ≤ b.length) (small : len < 2 ^ 32) :
    ∃ i, Ahead b len { s with i := i, cp := fields.foldl (fun cp f => f.store f.value cp) s.cp } rest ∧
      Reaches (decodeGuard len) (decodeBody env again b) s
        { s with i := i, cp := fields.foldl (fun cp f => f.store f.value cp) s.cp } ∧
      ∀ t, Reaches (decodeGuard len) (decodeBody env again b) s t →
        place env ⟨b, len, t⟩ = none ∨ Reaches (decodeGuard len) (decodeBody env again b)
          { s with i := i, cp := fields.foldl (fun cp f => f.store f.value cp) s.cp } t := by
  induction fields generalizing s with
  | nil =>
    exact ⟨s.i, (show Ahead b len s ([] ++ rest) from ahead).past rfl, .refl, fun t reach => .inr reach⟩
  | cons f fields ih =>
    have known := each f (by simp)
    have front : Ahead b len s (f.tag.toByte :: f.value ++ (fields.flatMap Field.bytes ++ rest)) := by
      simpa [Field.bytes] using ahead
    obtain ⟨pass, later⟩ := pass_field again front short small (known _) rfl
    obtain ⟨i, after, reaches, reached⟩ := ih (fun g member => each g (by simp [member])) later
    refine ⟨i, after, .head pass reaches, fun t reach => ?_⟩
    rcases reaches_of_pass pass reach with rfl | beyond
    · exact .inl (place_field front small (known _))
    · exact reached t beyond

section
variable {s : Decoding} {cipher mac : Bytes}
  (ahead : Ahead b len s (Tag.encryptedPayload.toByte :: (cipher ++ mac)))
  (small : len < 2 ^ 32) (macs : mac.length = 16)
  (size : s.cp.payloadLength.toNat = cipher.length + 16)
include ahead small

theorem opened_section (env : DecodeEnv) : Iteration.opened env ⟨b, len, s⟩ =
    some (openPayload env b { s with i := s.i + 1 }) := by
  have tagged := ahead.atTag small
  simp only [Iteration.opened, tagged.case env, tagCase, Iteration.afterTag, tagged.index]

include size

theorem place_section (env : DecodeEnv) :
    place env ⟨b, len, s⟩ =
      some ⟨.payload, chatPacketCalcNonce s.cp.serial env.pair.mynonce, cipher⟩ := by
  have tagged := ahead.atTag small
  obtain ⟨beyond, here⟩ := tagged.behind.here
  rw [List.append_assoc] at here
  have bytes : slice b (s.i + 1) (lessMac s.cp.payloadLength) = cipher := by
    rw [lessMac_eq size, slice_of_drop here]
  simp only [place, tagged.case env, tagCase, Iteration.afterTag, tagged.index, bytes]

include macs

theorem last_section (again : DecodeCall) {u : Decoding} (pass : decodeBody env again b s = .ok u) :
    decodeGuard len u = false := by
  have whole := ahead.size
  simp only [List.length_append, List.length_cons] at whole
  obtain ⟨_, _, leave⟩ := body_payload env again ahead small
  rw [leave] at pass
  unfold enterSection at pass
  split at pass
  · rename_i t decrypted opened
    have cursor := (openPayload_opens opened).cursor
    simp only [size] at cursor
    rw [advance, Nat.mod_eq_of_lt (by omega)] at cursor
    unfold afterPayload at pass
    split at pass
    · split at pass
      · cases pass
        simp only [decodeGuard, cursor, decide_eq_false_iff_not]
        omega
      · cases pass
    · cases pass
  · cases pass
  · cases pass

end

theorem message_states (env : DecodeEnv) (again : DecodeCall) {cp : ChatPacket} {allocs : Nat}
    {reply : ChatPacket}
    {length : UInt32} {cipher mac : Bytes} (macs : mac.length = 16)
    (size : length.toNat = cipher.length + 16) (fresh : cp.payloadLength = 0)
    (whole : Ahead b len (.start cp allocs)
      (messageBytes reply (sectionFields length length (cipher ++ mac))))
    (short : len ≤ b.length) (small : len < 2 ^ 32) :
    ∃ s, s.cp.serial = reply.serial ∧ s.cp.payloadLength = length ∧
      Ahead b len s (Tag.encryptedPayload.toByte :: (cipher ++ mac)) ∧
      Reaches (decodeGuard len) (decodeBody env again b) (.start cp allocs) s ∧
      ∀ t, Reaches (decodeGuard len) (decodeBody env again b) (.start cp allocs) t → t.i < len →
        place env ⟨b, len, t⟩ = none ∨ t = s := by
  rw [messageBytes_section reply (by simp [macs, size])] at whole
  obtain ⟨i, declared, reaches, reached⟩ :=
    reaches_fields again (headerStored_known reply) whole short small
  rw [Decoding.start, headerStored_foldl] at declared reaches reached
  have more : (withHeader cp reply).payloadLength < length := by
    rw [show (withHeader cp reply).payloadLength = 0 from fresh, UInt32.lt_iff_toNat_lt]
    simp [size]
  have known : ∀ s, tagCase env s .payloadLength = .copy (be32 length).length (be32 length).length _ :=
    fun s => rfl
  obtain ⟨pass, after⟩ := pass_field again declared short small (known _) (by simp [more]; rfl)
  refine ⟨_, rfl, rfl, after, reaches.tail pass, fun t reach inside => ?_⟩
  rcases reached t reach with nowhere | beyond
  · exact .inl nowhere
  · rcases reaches_of_pass pass beyond with rfl | there
    · exact .inl (place_field declared small (known _))
    · right
      exact reaches_last (fun u => last_section after small macs size again) there
        (by simpa [decodeGuard] using inside)

section
variable {fuel : Nat} {cp : ChatPacket} {allocs : Nat} {x : Iteration}

theorem place_of_no_tag (noEnvelope : Tag.encryptedEnvelope.toByte ∉ b)
    (noPayload : Tag.encryptedPayload.toByte ∉ b) (visit : Visits env fuel cp allocs b len x) :
    place env x = none := by
  have closed := Authentication.opened_of_no_tag noEnvelope noPayload visit
  simp only [Iteration.opened] at closed
  simp only [place]
  split
  · rename_i known
    simp [known] at closed
  · rename_i known
    simp [known] at closed
  · rfl

theorem place_of_rejected {c : UInt8} {rest : Bytes} (unknown : Tag.ofByte c = none)
    (visit : Visits env fuel cp allocs (c :: rest) len x) : place env x = none := by
  have nowhere : place env ⟨c :: rest, len, .start cp allocs⟩ = none := by
    simp [place, Iteration.case, byteCase, Decoding.start, unknown]
  have first : ∀ {fuel : Nat} {s : Decoding},
      Reaches (decodeGuard len) (decodeBody env (chatPacketDecode env fuel) (c :: rest))
        (.start cp allocs) s → s.i < len → s = .start cp allocs := by
    intro fuel s reach more
    refine reaches_last (fun u pass => ?_) reach (by simpa [decodeGuard] using more)
    simp [decodeBody, Decoding.start, byteCase, unknown, decodeCase] at pass
  cases visit with
  | here reach more =>
    rw [first reach more]
    exact nowhere
  | inside reach more enter visit =>
    rw [first reach more, opened_of_place nowhere] at enter
    cases enter

theorem visits_message {reply : ChatPacket} {length : UInt32} {cipher mac : Bytes}
    (macs : mac.length = 16) (size : length.toNat = cipher.length + 16) (fresh : cp.payloadLength = 0)
    (whole : Ahead b len (.start cp allocs)
      (messageBytes reply (sectionFields length length (cipher ++ mac))))
    (short : len ≤ b.length) (small : len < 2 ^ 32) (visit : Visits env fuel cp allocs b len x) :
    place env x = none ∨
      place env x = some ⟨.payload, chatPacketCalcNonce reply.serial env.pair.mynonce, cipher⟩ ∨
      ∃ fuel, ∃ t : Decoding, Visits env fuel t.cp t.allocs
        (s20Crypt env.pair.sharedkey (chatPacketCalcNonce reply.serial env.pair.mynonce) cipher)
        cipher.length x := by
  cases visit with
  | @here fuel _ _ _ _ s reach more =>
    obtain ⟨t, serial, length, after, _, only⟩ :=
      message_states env (chatPacketDecode env fuel) macs size fresh whole short small
    rcases only s reach more with nowhere | rfl
    · exact .inl nowhere
    · right; left
      rw [place_section after small (by rw [length, size]), serial]
  | @inside fuel _ _ _ _ decrypted s u _ reach more enter visit =>
    obtain ⟨t, serial, length, after, _, only⟩ :=
      message_states env (chatPacketDecode env fuel) macs size fresh whole short small
    rcases only s reach more with nowhere | rfl
    · rw [opened_of_place nowhere] at enter
      cases enter
    · have declared : s.cp.payloadLength.toNat = cipher.length + 16 := by rw [length, size]
      have here := place_section after small declared env
      have plain := opened_decrypts here enter
      right; right
      refine ⟨fuel, u, ?_⟩
      rw [serial] at plain
      have size : cipher.length = decrypted.length := by simp [plain, s20Crypt]
      rw [size, ← plain]
      exact visit

/-- The MAC says nothing of the serial: the section is accepted under any, and opened. -/
theorem accepts_message (env : DecodeEnv) (memory : ∀ n, env.alloc n = true) {reply : ChatPacket}
    {length : UInt32} {cipher : Bytes} (size : length.toNat = cipher.length + 16)
    (fresh : cp.payloadLength = 0) (some : cipher ≠ [])
    (whole : Ahead b len (.start cp allocs) (messageBytes reply (sectionFields length length
      (cipher ++ (env.crypto.poly1305Auth cipher env.pair.sharedkey).val))))
    (short : len ≤ b.length) (small : len < 2 ^ 32) :
    ∃ fuel x t, Visits env fuel cp allocs b len x ∧
      place env x = .some ⟨.payload, chatPacketCalcNonce reply.serial env.pair.mynonce, cipher⟩ ∧
      x.opened env = .some (.ok (.section t (s20Crypt env.pair.sharedkey
        (chatPacketCalcNonce reply.serial env.pair.mynonce) cipher))) := by
  obtain ⟨s, serial, declared, after, reach, _⟩ :=
    message_states env (chatPacketDecode env 0) (Block.length_val _) size fresh whole short small
  obtain ⟨more, inside, _⟩ := body_payload env (chatPacketDecode env 0) after small
  have here := place_section after small (by rw [declared, size]) env
  have resealed : cipher = s20Crypt env.pair.sharedkey
      (chatPacketCalcNonce s.cp.serial env.pair.mynonce) (s20Crypt env.pair.sharedkey
        (chatPacketCalcNonce s.cp.serial env.pair.mynonce) cipher) :=
    (Salsa20.crypt_crypt _ _ _).symm
  have section' : cipher ++ (env.crypto.poly1305Auth cipher env.pair.sharedkey).val =
      sealBytes env.crypto env.pair.sharedkey (chatPacketCalcNonce s.cp.serial env.pair.mynonce)
        (s20Crypt env.pair.sharedkey (chatPacketCalcNonce s.cp.serial env.pair.mynonce) cipher) := by
    simp only [sealBytes, ← resealed]
  have filled : s20Crypt env.pair.sharedkey (chatPacketCalcNonce s.cp.serial env.pair.mynonce) cipher ≠
      [] := by
    intro none
    have lengths := congrArg List.length none
    rw [s20Crypt, Salsa20.length_crypt, List.length_nil] at lengths
    exact some (List.eq_nil_of_length_eq_zero lengths)
  rw [section'] at inside
  have opened := openPayload_sealed inside short (by simp [declared, size, s20Crypt]) filled
  rw [if_pos (by simp [memory])] at opened
  have enter := (opened_section after small env).trans
    (congrArg Option.some opened)
  rw [serial] at enter here
  exact ⟨1, _, _, .here reach more, here, enter⟩

end

end

def sharedKey : Block 32 := .ofBytes 32 (List.replicate 32 5)
def sessionNonce : Block 8 := .ofBytes 8 [1, 2, 3, 4, 5, 6, 7, 8]

def link : Link where
  pair
    | .controller => { (default : ChatFabricPairing) with
        state := .paired
        sharedkey := sharedKey
        nonce := sessionNonce }
    | .device => { (default : ChatFabricPairing) with
        state := .paired
        sharedkey := sharedKey
        mynonce := sessionNonce }
  log := []

theorem link_keyed : Keyed sharedKey link :=
  ⟨fun side => by cases side <;> rfl, by simp [link]⟩

def hail : ChatPacket := { chatPacketInit0 default with cmd := .appMessage }

def hailSealed : Sealed :=
  ⟨.controller, .payload, sharedKey, chatPacketCalcNonce 1 sessionNonce, plainBytes hail []⟩

def hailWith (serial : UInt32) : Bytes :=
  messageBytes { hail with serial := serial }
    (sectionFields (sectionLength hail []) (sectionLength hail []) (hailSealed.bytes default))

def sends : Turn := .encode .controller hail .data
def arrives (serial : UInt32) : Turn := .decode .device Authentication.world (hailWith serial)

theorem hail_sound : Sound hail (default : PacketRandom).payload [] where
  padding := rfl
  listed := rfl
  payload some := absurd some (by decide)
  actionData action := absurd rfl action
  backed := by simp

theorem next_sends : (next default link sends).log = [hailSealed] ∧
    (next default link sends).pair .device = link.pair .device := by
  have encoded : chatPacketEncode default hail (link.pair .controller) true .data = .ok _ :=
    encodeData_sealed hail_sound (by decide) default (link.pair .controller)
  have logged : sealedBy .controller hail (link.pair .controller) .data = .ok [hailSealed] := by
    decide +kernel
  simp only [next, sends, encoded, logged]
  exact ⟨rfl, by simp⟩

def hailOpened (serial : UInt32) : Bytes :=
  s20Crypt sharedKey (chatPacketCalcNonce serial sessionNonce) hailSealed.cipher

theorem hailWith_length (serial : UInt32) : (hailWith serial).length = 83 + (plainSize hail [] + 22) :=
  length_messageBytes (sealedFields_fills hail_sound (by decide) default _ _)

theorem hailWith_fits (serial : UInt32) : (hailWith serial).length ≤ bufferSize := by
  rw [hailWith_length]
  decide

theorem hail_size : (sectionLength hail []).toNat = hailSealed.cipher.length + 16 := by
  rw [toNat_sectionLength (by decide), Sealed.cipher, s20Crypt, Salsa20.length_crypt]
  exact congrArg (· + 16) (length_plainBytes hail_sound).symm

theorem arrives_places {serial : UInt32} {s : Link} (same : s.pair .device = link.pair .device)
    (closed : ∀ {env fuel cp allocs len x}, Visits env fuel cp allocs (hailOpened serial) len x →
      place env x = none) {x : Iteration} {p : Place}
    (visits : VisitsDatagram default s .device Authentication.world (hailWith serial) x)
    (here : place (decodeEnv default Authentication.world (s.pair .device)) x = some p) :
    p = ⟨.payload, chatPacketCalcNonce serial sessionNonce, hailSealed.cipher⟩ := by
  obtain ⟨fuel, visit⟩ := visits
  rw [same] at visit here
  rcases visits_message (by simp) hail_size rfl (ahead_receiveBuffer (hailWith_fits serial) _ 0)
      (received_short _) (received_small _) visit with nowhere | there | ⟨fuel, t, inside⟩
  · rw [here] at nowhere
    cases nowhere
  · rw [here] at there
    exact Option.some.inj there
  · have nowhere := closed (x := x) inside
    rw [here] at nowhere
    cases nowhere

theorem hailOpened_one : hailOpened 1 = plainBytes hail [] :=
  Salsa20.crypt_crypt sharedKey (chatPacketCalcNonce 1 sessionNonce) (plainBytes hail [])

/-- Two bytes of the key stream are enough to see that the section opens to something else. -/
theorem hailOpened_two : ∃ rest, hailOpened 2 = 246 :: rest := by
  have first : plainBytes hail [] = 14 :: (plainBytes hail []).tail := by decide +kernel
  have one : Salsa20.keystream sharedKey (chatPacketCalcNonce 1 sessionNonce) 0 = 1 := by decide +kernel
  have two : Salsa20.keystream sharedKey (chatPacketCalcNonce 2 sessionNonce) 0 = 249 := by
    decide +kernel
  have opened : hailOpened 2 = Salsa20.crypt sharedKey (chatPacketCalcNonce 2 sessionNonce)
      (Salsa20.crypt sharedKey (chatPacketCalcNonce 1 sessionNonce) (plainBytes hail [])) := rfl
  rw [opened, first, Salsa20.crypt, Salsa20.crypt, List.mapIdx_cons, List.mapIdx_cons, one, two]
  exact ⟨_, rfl⟩

theorem hailOpened_one_closed {env : DecodeEnv} {fuel allocs len : Nat} {cp : ChatPacket}
    {x : Iteration} (visit : Visits env fuel cp allocs (hailOpened 1) len x) :
    place env x = none := by
  rw [hailOpened_one] at visit
  exact place_of_no_tag (by decide +kernel) (by decide +kernel) visit

theorem hailOpened_two_closed {env : DecodeEnv} {fuel allocs len : Nat} {cp : ChatPacket}
    {x : Iteration} (visit : Visits env fuel cp allocs (hailOpened 2) len x) :
    place env x = none := by
  obtain ⟨rest, opened⟩ := hailOpened_two
  rw [opened] at visit
  exact place_of_rejected rfl visit

theorem arrives_unforged {serial : UInt32}
    (closed : ∀ {env fuel cp allocs len x}, Visits env fuel cp allocs (hailOpened serial) len x →
      place env x = none) :
    EveryStep (next default) (Unforged default) link [sends, arrives serial] := by
  obtain ⟨log, same⟩ := next_sends
  refine ⟨trivial, ?_, trivial⟩
  rintro p decrypted ⟨x, t, visits, here, _⟩
  rw [arrives_places same closed visits here, log]
  exact ⟨hailSealed, by simp, rfl⟩

theorem sections_faithful_hail :
    EveryStep (next default) (Faithful default) link [sends, arrives 1] := by
  refine sections_faithful default sharedKey link link_keyed [sends, arrives 1]
    (arrives_unforged hailOpened_one_closed) ⟨trivial, ?_, trivial⟩
  obtain ⟨log, same⟩ := next_sends
  intro x p visits here e logged _
  rw [log, List.mem_singleton] at logged
  rw [arrives_places same hailOpened_one_closed visits here, logged]
  exact ⟨rfl, rfl, rfl⟩

theorem hail_accepted (serial : UInt32) {s : Link} (same : s.pair .device = link.pair .device) :
    ∃ p, Accepts default s .device Authentication.world (hailWith serial) p (hailOpened serial) := by
  have some : hailSealed.cipher ≠ [] := by
    intro none
    have size := hail_size
    rw [none] at size
    exact absurd size (by decide)
  have shared : (s.pair .device).sharedkey = sharedKey := by rw [same]; rfl
  have nonce : (s.pair .device).mynonce = sessionNonce := by rw [same]; rfl
  obtain ⟨fuel, x, t, visit, here, opened⟩ :=
    accepts_message (decodeEnv default Authentication.world (s.pair .device)) (fun _ => rfl)
      hail_size rfl some (ahead_receiveBuffer (hailWith_fits serial)
        (chatPacketInit0 Authentication.world.random) 0) (received_short _) (received_small _)
  simp only [decodeEnv, shared, nonce] at opened
  exact ⟨_, x, t, ⟨fuel, visit⟩, here, opened⟩

theorem altered_serial :
    ¬ ∀ key start, Keyed key start → ∀ inputs,
      EveryStep (next default) (Unforged default) start inputs →
        EveryStep (next default) (Faithful default) start inputs := by
  intro faithful
  have steps := faithful sharedKey link link_keyed [sends, arrives 2]
    (arrives_unforged hailOpened_two_closed)
  obtain ⟨log, same⟩ := next_sends
  obtain ⟨p, accepted⟩ := hail_accepted 2 same
  obtain ⟨e, logged, _, _, plain⟩ := steps.2.1 p _ accepted
  rw [log, List.mem_singleton] at logged
  obtain ⟨rest, opened⟩ := hailOpened_two
  have first : plainBytes hail [] = 14 :: (plainBytes hail []).tail := by decide +kernel
  rw [logged, opened, show hailSealed.plain = plainBytes hail [] from rfl, first] at plain
  exact absurd (List.cons.inj plain).1 (by decide)

end SectionPlaces
