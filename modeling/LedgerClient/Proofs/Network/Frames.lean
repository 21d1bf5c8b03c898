import LedgerClient.Network.Tcp
import LedgerClient.Proofs.Wire.Messages

/-!
# Requests over a connection

A request goes out as one frame, unless it is too long for a frame: then nothing goes out.  The
other side reads the same method and payload from it, whatever follows.  The answer is read from the
front of what comes back.  What is read depends on the length in front, on how many octets come
before the connection is closed, and on nothing behind the frame.
-/

namespace LedgerClient

namespace Message

/-- The method, the length of the payload, and the payload. -/
theorem length_encode (m : Message) : (codec.encode m).length = m.payload.length + 10 := by
  show (Bytes.littleEndian 2 _ ++ (Bytes.littleEndian 8 _ ++ m.payload)).length = _
  simp only [List.length_append, Bytes.length_littleEndian]
  omega

end Message

namespace Frame

variable {incoming content : Bytes}

/-- The length that stands in front. -/
def announced (incoming : Bytes) : Nat :=
  Bytes.ofBigEndian (incoming.take 4)

/-- The content of the frame in front. -/
def answer (incoming : Bytes) : Except TransportError Bytes :=
  (read incoming).map Prod.fst

theorem answer_eq (incoming : Bytes) :
    answer incoming =
      if incoming.length < 4 then .error .connectionReset
      else if maxLength < announced incoming then .error (tooLong (announced incoming))
      else if incoming.length < 4 + announced incoming then .error .connectionReset
      else .ok (incoming.extract 4 (4 + announced incoming)) := by
  have hread : read incoming =
      if (incoming.take 4).length < 4 then .error .connectionReset
      else if maxLength < announced incoming then .error (tooLong (announced incoming))
      else if ((incoming.drop 4).take (announced incoming)).length < announced incoming then
        .error .connectionReset
      else .ok ((incoming.drop 4).take (announced incoming),
        (incoming.drop 4).drop (announced incoming)) := rfl
  rw [answer, hread, List.extract_eq_take_drop, Nat.add_sub_cancel_left]
  by_cases hshort : incoming.length < 4
  · have hhead : (incoming.take 4).length < 4 := by
      rw [List.length_take]
      omega
    rw [if_pos hshort, if_pos hhead]
    rfl
  · have hhead : ¬ (incoming.take 4).length < 4 := by
      rw [List.length_take]
      omega
    rw [if_neg hshort, if_neg hhead]
    by_cases hlong : maxLength < announced incoming
    · rw [if_pos hlong, if_pos hlong]
      rfl
    · have hcontent :
          ((incoming.drop 4).take (announced incoming)).length < announced incoming <->
            incoming.length < 4 + announced incoming := by
        rw [List.length_take, List.length_drop]
        omega
      simp only [if_neg hlong, hcontent]
      split
      · rfl
      · rfl

/-- What comes of the octets that arrive before the connection is closed. -/
inductive Comes (incoming : Bytes) : Except TransportError Bytes → Prop where
  | cutShort (hshort : incoming.length < 4) : Comes incoming (.error .connectionReset)
  | tooLong (hlength : 4 ≤ incoming.length) (hlong : maxLength < announced incoming) :
      Comes incoming (.error (Frame.tooLong (announced incoming)))
  | brokenOff (hlength : 4 ≤ incoming.length) (hfits : announced incoming ≤ maxLength)
      (hbroken : incoming.length < 4 + announced incoming) :
      Comes incoming (.error .connectionReset)
  | complete (hfits : announced incoming ≤ maxLength)
      (hwhole : 4 + announced incoming ≤ incoming.length) :
      Comes incoming (.ok (incoming.extract 4 (4 + announced incoming)))

theorem answer_eq_iff {result : Except TransportError Bytes} :
    answer incoming = result <-> Comes incoming result := by
  constructor
  · intro h
    rw [← h, answer_eq]
    by_cases hshort : incoming.length < 4
    · rw [if_pos hshort]
      exact .cutShort hshort
    · rw [if_neg hshort]
      by_cases hlong : maxLength < announced incoming
      · rw [if_pos hlong]
        exact .tooLong (Nat.le_of_not_lt hshort) hlong
      · rw [if_neg hlong]
        by_cases hbroken : incoming.length < 4 + announced incoming
        · rw [if_pos hbroken]
          exact .brokenOff (Nat.le_of_not_lt hshort) (Nat.le_of_not_lt hlong) hbroken
        · rw [if_neg hbroken]
          exact .complete (Nat.le_of_not_lt hlong) (Nat.le_of_not_lt hbroken)
  · intro h
    rw [answer_eq]
    cases h with
    | cutShort hshort => rw [if_pos hshort]
    | tooLong hlength hlong => rw [if_neg (Nat.not_lt.mpr hlength), if_pos hlong]
    | brokenOff hlength hfits hbroken =>
        rw [if_neg (Nat.not_lt.mpr hlength), if_neg (Nat.not_lt.mpr hfits), if_pos hbroken]
    | complete hfits hwhole =>
        have hlength : ¬ incoming.length < 4 := by omega
        rw [if_neg hlength, if_neg (Nat.not_lt.mpr hfits), if_neg (Nat.not_lt.mpr hwhole)]

/-- What comes behind the frame does not matter. -/
theorem answer_congr {other : Bytes}
    (hfront : other.take (4 + announced incoming) = incoming.take (4 + announced incoming)) :
    answer other = answer incoming := by
  have hheader : other.take 4 = incoming.take 4 := by
    have hboth := congrArg (List.take 4) hfront
    rwa [List.take_take, List.take_take, Nat.min_eq_left (Nat.le_add_right 4 _)] at hboth
  have hannounced : announced other = announced incoming := by rw [announced, hheader, announced]
  have hlengths := congrArg List.length hfront
  rw [List.length_take, List.length_take] at hlengths
  have hshort : other.length < 4 <-> incoming.length < 4 := by omega
  have hbroken : other.length < 4 + announced incoming <->
      incoming.length < 4 + announced incoming := by omega
  have hslice : other.extract 4 (4 + announced incoming) =
      incoming.extract 4 (4 + announced incoming) := by
    have hboth := congrArg (List.drop 4) hfront
    rw [List.drop_take, List.drop_take] at hboth
    rwa [List.extract_eq_take_drop, List.extract_eq_take_drop]
  rw [answer_eq, answer_eq, hannounced]
  simp only [hshort, hbroken, hslice]

end Frame

namespace Message

/-- The other side takes the frame from the front, and from it the method and the payload. -/
theorem read_back {m : Message} (hfits : (codec.encode m).length ≤ Frame.maxLength) (more : Bytes) :
    Frame.read (Bytes.bigEndian 4 (codec.encode m).length ++ codec.encode m ++ more) =
        .ok (codec.encode m, more) ∧
      codec.read (codec.encode m) = .ok m := by
  constructor
  · apply Frame.read_write
    rw [Frame.write, if_neg (Nat.not_lt.mpr hfits)]
  · apply Codec.read_encode lossless_codec
    rw [Codec.countable_iff]
    exact Nat.lt_of_le_of_lt hfits (by decide)

end Message

namespace Tcp

variable {σ : Type} {dialer : Dialer σ} {address : String} {world opened : σ} {incoming : Bytes}

theorem exchange_of_long {message : Message}
    (hlong : Frame.maxLength < (Message.codec.encode message).length) (incoming : Bytes) :
    exchange message incoming =
      { sent := []
        result := .error (Frame.tooLong (Message.codec.encode message).length) } := by
  rw [exchange, Frame.write, if_pos hlong]

theorem exchange_of_fitting {message : Message}
    (hfits : (Message.codec.encode message).length ≤ Frame.maxLength) (incoming : Bytes) :
    exchange message incoming =
      { sent := Bytes.bigEndian 4 (Message.codec.encode message).length ++
          Message.codec.encode message
        result := Frame.answer incoming } := by
  rw [exchange, Frame.write, if_neg (Nat.not_lt.mpr hfits)]
  rfl

theorem send_of_accepted (hopen : dialer.connect address world = (.accepted incoming, opened))
    (message : Message) :
    send dialer address message world =
      ((exchange message incoming).result,
        dialer.deliver (exchange message incoming).sent opened) := by
  rw [send, hopen]

/-- Over an accepted connection a message that is too long for a frame is refused and nothing is
sent.  Any other message goes out as one frame, from which it is read back whatever follows, and the
answer is the content of the frame in front of what comes in. -/
theorem send_frames_both_ways (dialer : Dialer σ) (address : String) (message : Message)
    {world opened : σ} {incoming : Bytes}
    (hopen : dialer.connect address world = (.accepted incoming, opened)) :
    (Message.codec.encode message).length = message.payload.length + 10 ∧
    (Frame.maxLength < message.payload.length + 10 ->
      send dialer address message world =
        (.error (Frame.tooLong (message.payload.length + 10)), dialer.deliver [] opened)) ∧
    (message.payload.length + 10 ≤ Frame.maxLength ->
      exists sent, sent = Bytes.bigEndian 4 (message.payload.length + 10) ++
          Message.codec.encode message ∧
        send dialer address message world = (Frame.answer incoming, dialer.deliver sent opened) ∧
        (forall more, Frame.read (sent ++ more) = .ok (Message.codec.encode message, more)) ∧
        Message.codec.read (Message.codec.encode message) = .ok message ∧
        (forall result, Frame.answer incoming = result <-> Frame.Comes incoming result) ∧
        forall other, other.take (4 + Frame.announced incoming) =
          incoming.take (4 + Frame.announced incoming) ->
            Frame.answer other = Frame.answer incoming) := by
  have hlength := message.length_encode
  rw [← hlength, send_of_accepted hopen]
  refine ⟨rfl, ?_, ?_⟩
  · intro hlong
    rw [exchange_of_long hlong]
  · intro hfits
    rw [exchange_of_fitting hfits]
    exact ⟨_, rfl, rfl, fun more => (Message.read_back hfits more).left,
      (Message.read_back hfits []).right, fun result => Frame.answer_eq_iff,
      fun other => Frame.answer_congr⟩

/-- Another side that says the same over every connection and keeps what it is told. -/
def parrot (reply : Bytes) : Dialer (List Bytes) where
  connect _ received := (.accepted reply, received)
  deliver sent received := received ++ [sent]

/-- Two octets are announced, so the third is left alone. -/
theorem parrot_answers :
    (parrot [0, 0, 0, 2, 7, 8, 9]).connect "a" [] = (.accepted [0, 0, 0, 2, 7, 8, 9], []) ∧
      send (parrot [0, 0, 0, 2, 7, 8, 9]) "a" ⟨⟨100⟩, [1, 2, 3]⟩ [] =
        (.ok [7, 8], [[0, 0, 0, 13, 100, 0, 3, 0, 0, 0, 0, 0, 0, 0, 1, 2, 3]]) := by
  have hopen : (parrot [0, 0, 0, 2, 7, 8, 9]).connect "a" [] =
      (.accepted [0, 0, 0, 2, 7, 8, 9], []) := rfl
  rcases send_frames_both_ways (parrot [0, 0, 0, 2, 7, 8, 9]) "a" ⟨⟨100⟩, [1, 2, 3]⟩ hopen with
    ⟨_, _, hfitting⟩
  rcases hfitting (by decide) with ⟨sent, hsent, hdone, _, _, hanswer, _⟩
  have hcontent := (hanswer (.ok [7, 8])).mpr (.complete (by decide) (by decide))
  rw [hdone, hcontent, hsent]
  exact ⟨rfl, rfl⟩

end Tcp

end LedgerClient
