/-
# Zap.Handshake.Canonical — an accepted body is the encoding of what it decodes to.

`Codecs` says that the decoders undo the encoders; this module is the other direction. A decoder reads every
byte of the body it accepts, each into one field, so the encoder writes the body back: no frame has two
encodings. The argument is the same for all eight codecs. The fields are windows of the body, a window that
goes on where a prefix ends joins it (`prefix_cat`), and together they are the whole of it.

Against the grammar of its specification, the HELLO decoder is wider: it takes any `pq_mode` byte. The
encoder is wider too: it does not ask whether the suite is among the schemes, which the
decoder does.
-/
import Zap.Handshake.Codecs

namespace Zap.Handshake

open Zap.Lib

variable {body : Bytes}

/-! ## HELLO and HELLO_PSK -/

theorem head_window (hlen : 2 ≤ body.length) : [body.getD 0 0, body.getD 1 0] = window body 0 2 := by
  rw [← window_cat body 0 1 1, window_one (by omega), window_one (by omega)]
  rfl

section Hello

variable {h : HelloFrame}

theorem bytes_helloAt {n : Nat} (hlen : body.length = helloFixedLen + n + mldsa65PubLen)
    (hcount : be 4 n = window body 58 4) : (helloAt body n).bytes = body := by
  have hfixed : helloFixedLen = 62 := rfl
  have hkey : mldsa65PubLen = 1952 := rfl
  have hrandom : (window body 2 clientRandLen).length = clientRandLen :=
    window_length (by simp only [clientRandLen]; omega)
  have htime : (window body 18 timestampLen).length = 8 := window_length (by simp only [timestampLen]; omega)
  have hid : (window body 26 idLen).length = idLen := window_length (by simp only [idLen]; omega)
  have hschemes : (window body helloFixedLen n).length = n := window_length (by omega)
  have hts : be 8 (ofBE64 (window body 18 timestampLen)).toNat = window body 18 timestampLen := be64_ofBE64 htime
  have hbyte : SuiteID.byte ∘ SuiteID.mk = id := rfl
  have hhead := head_window (show 2 ≤ body.length by omega)
  simp only [helloAt, HelloFrame.bytes, encodeSchemes, List.length_map, List.map_map, hts, hschemes, hcount,
    Arr.copy_bytes hrandom, Arr.copy_bytes hid, hhead]
  -- the seven windows, joined from the left
  simp only [hbyte, List.map_id, ← List.append_assoc, clientRandLen, timestampLen, idLen, hfixed, prefix_cat,
    Nat.reduceAdd]
  exact window_whole (by omega)

/-- **An accepted HELLO is the encoding of what it decodes to.** -/
theorem bytes_decodeHello (hdec : decodeHello body = .ok h) : h.bytes = body := by
  obtain ⟨n, hn, -, -, hlen, -, rfl⟩ := decodeHello_inv hdec
  have hfixed : helloFixedLen = 62 := rfl
  refine bytes_helloAt hlen ?_
  rw [← hn, be_ofBE_of_length (window_length (by omega))]

theorem encode_decodeHello (hdec : decodeHello body = .ok h) : h.encode = .ok body := by
  have hbytes := bytes_decodeHello hdec
  have hkey := decodeHello_length hdec
  obtain ⟨-, -, -, -, -, hmem, -⟩ := decodeHello_inv hdec
  exact encode_hello_ok.mpr ⟨hkey, List.ne_nil_of_mem hmem, hbytes.symm⟩

end Hello

theorem encode_decodeHelloPSK {h : HelloPSKFrame} (hdec : decodeHelloPSK body = .ok h) : h.encode = body := by
  unfold decodeHelloPSK at hdec
  split at hdec
  · cases hdec
  rename_i hne
  have hlen : body.length = 74 := not_not.mp hne
  cases hdec
  have hrandom : (window body 2 clientRandLen).length = clientRandLen :=
    window_length (by simp only [clientRandLen]; omega)
  have htime : (window body 18 timestampLen).length = 8 := window_length (by simp only [timestampLen]; omega)
  have hpsk : (window body 26 pskIDLen).length = pskIDLen := window_length (by simp only [pskIDLen]; omega)
  have heph : (window body 42 x25519PubLen).length = x25519PubLen :=
    window_length (by simp only [x25519PubLen]; omega)
  have hts : be 8 (UInt64.ofNat (ofBE (window body 18 timestampLen))).toNat = window body 18 timestampLen :=
    be64_ofBE64 htime
  have hhead := head_window (show 2 ≤ body.length by omega)
  simp only [HelloPSKFrame.encode, hts, Arr.copy_bytes hrandom, Arr.copy_bytes hpsk, Arr.copy_bytes heph, hhead]
  simp only [clientRandLen, timestampLen, pskIDLen, x25519PubLen, prefix_cat, Nat.reduceAdd]
  exact window_whole hlen

/-! ## The other frames -/

theorem encode_decodeKEMInit {k : KEMInitFrame} (hdec : decodeKEMInit body = .ok k) : k.encode = body := by
  have hlen := decodeKEMInit_length hdec
  unfold decodeKEMInit at hdec
  rw [if_neg (not_not.mpr hlen)] at hdec
  cases hdec
  have hx : (body.take x25519PubLen).length = x25519PubLen := by
    rw [List.length_take, hlen]
    rfl
  have hk : (body.drop x25519PubLen).length = mlkem768PubLen := by
    rw [List.length_drop, hlen]
    rfl
  rw [KEMInitFrame.encode, Arr.copy_bytes hx, Arr.copy_bytes hk, List.take_append_drop]

theorem encode_decodeKEMReply {k : KEMReplyFrame} (hdec : decodeKEMReply body = .ok k) :
    k.encode = .ok body := by
  obtain ⟨hlen, hpk⟩ := decodeKEMReply_length hdec
  refine encode_reply_ok.mpr ⟨hpk, ?_⟩
  unfold decodeKEMReply at hdec
  rw [if_neg (not_not.mpr hlen)] at hdec
  cases hdec
  have hx : (window body 0 x25519PubLen).length = x25519PubLen := window_length (by rw [hlen]; decide)
  have hct : (window body x25519PubLen mlkem768CTLen).length = mlkem768CTLen := window_length (by rw [hlen]; decide)
  rw [Arr.copy_bytes hx, Arr.copy_bytes hct, prefix_cat, prefix_cat]
  exact (window_whole hlen).symm

theorem encode_decodeAuth {a : AuthFrame} (hdec : decodeAuth body = .ok a) : a.encode = .ok body := by
  unfold decodeAuth at hdec
  split at hdec
  · cases hdec
  rename_i hne
  have hlen := not_not.mp hne
  dsimp only at hdec
  split at hdec
  · cases hdec
  rename_i hrole
  cases hdec
  have hone : body = body.getD 0 0 :: body.drop 1 := by
    cases body with
    | nil => simp at hlen
    | cons b rest => rfl
  refine (encode_auth_ok (not_and_or.mp hrole |>.imp not_not.mp not_not.mp)).mpr ⟨?_, hone⟩
  rw [List.length_drop, hlen, Nat.add_sub_cancel_left]

theorem encode_decodeData {d : DataFrame} (hdec : decodeData body = .ok d) : d.encode = body := by
  unfold decodeData at hdec
  split at hdec
  · cases hdec
  rename_i hlong
  split at hdec
  · cases hdec
  rename_i hne
  cases hdec
  have hctr : nonceCtrLen = 8 := rfl
  have hlen : ofBE (window body 8 4) = body.length - 8 - 4 := not_not.mp hne
  have hcount : be 4 (body.drop (nonceCtrLen + 4)).length = window body 8 4 := by
    rw [List.length_drop, ← Nat.sub_sub, hctr, ← hlen, be_ofBE_of_length (window_length (by omega))]
  have hnonce : be64 (ofBE64 (body.take nonceCtrLen)) = body.take 8 := be64_ofBE64 (by rw [List.length_take]; omega)
  have hhead : body.take 8 ++ window body 8 4 = body.take 12 := prefix_cat body 8 4
  rw [DataFrame.encode, hnonce, hcount, hhead]
  exact List.take_append_drop 12 body

theorem encode_decodeRekey {r : RekeyFrame} (hdec : decodeRekey body = .ok r) : r.encode = body := by
  unfold decodeRekey at hdec
  split at hdec
  · cases hdec
  rename_i hne
  cases hdec
  obtain ⟨b, rfl⟩ := List.length_eq_one_iff.mp (not_not.mp hne)
  rfl

theorem encode_decodeAlert {a : AlertFrame} (hdec : decodeAlert body = .ok a) : a.encode = body := by
  unfold decodeAlert at hdec
  split at hdec
  · cases hdec
  rename_i hlong
  split at hdec
  · cases hdec
  rename_i hne
  cases hdec
  have hlen := not_not.mp hne
  have hcount : be 4 (body.drop 5).length = window body 1 4 := by
    rw [List.length_drop, ← hlen, be_ofBE_of_length (window_length (by omega))]
  have hcode : [body.getD 0 0] = window body 0 1 := (window_one (by omega)).symm
  have hhead : body.getD 0 0 :: window body 1 4 = body.take 5 := by
    rw [← List.singleton_append, hcode, prefix_cat]
    rfl
  rw [AlertFrame.encode, hcount, hhead, List.take_append_drop]

/-! ## HELLO against its specification -/

def PQMode.Named (m : PQMode) : Prop := m = pqModeClassicalPermitted ∨ m = pqModePQRequired ∨ m = pqModePQOnly

structure HelloFrame.Allowed (h : HelloFrame) : Prop where
  mode : h.pqMode.Named
  offered : h.offeredSchemes ≠ []
  included : h.suite ∈ h.offeredSchemes
  key : h.staticPKInitiator.length = mldsa65PubLen

/-- What the decoder accepts, whatever the mode: the encodings with the suite among at most `maxFrameBody`
schemes. -/
theorem decodeHello_iff {h : HelloFrame} :
    decodeHello body = .ok h ↔ h.encode = .ok body ∧ h.suite ∈ h.offeredSchemes ∧
      h.offeredSchemes.length ≤ maxFrameBody := by
  constructor
  · intro hdec
    refine ⟨encode_decodeHello hdec, ?_⟩
    obtain ⟨n, -, -, hcap, hlen, hmem, hfields⟩ := decodeHello_inv hdec
    refine ⟨hmem, ?_⟩
    rw [hfields, helloAt, List.length_map, window_length (by omega)]
    exact hcap
  · rintro ⟨henc, hmem, hfit⟩
    obtain ⟨hkey, hne, rfl⟩ := encode_hello_ok.mp henc
    rw [decodeHello_bytes hkey hne hfit, if_pos hmem]

theorem HelloFrame.shown {h : HelloFrame} (henc : h.encode = .ok body) :
    h.pqMode = ⟨body.getD 1 0⟩ ∧ body.length = helloFixedLen + (h.offeredSchemes.length + mldsa65PubLen) := by
  obtain ⟨hkey, -, rfl⟩ := encode_hello_ok.mp henc
  refine ⟨rfl, ?_⟩
  rw [h.bytes_length, hkey]

/-- What a HELLO body looks like, whatever its mode: as many schemes as the count says, the suite, which is the
first byte, among them, and a key behind them. -/
def HelloShape (body : Bytes) : Prop :=
  ∃ n, body.length = helloFixedLen + n + mldsa65PubLen ∧ be 4 n = window body 58 4 ∧
    body.getD 0 0 ∈ window body helloFixedLen n

theorem helloShape_iff : HelloShape body ↔ ∃ h : HelloFrame, h.encode = .ok body ∧ h.suite ∈ h.offeredSchemes := by
  constructor
  · rintro ⟨n, hlen, hcount, hmem⟩
    have hmem' : (helloAt body n).suite ∈ (helloAt body n).offeredSchemes := List.mem_map_of_mem hmem
    refine ⟨helloAt body n, encode_hello_ok.mpr ⟨window_length hlen.ge, List.ne_nil_of_mem hmem', ?_⟩, hmem'⟩
    exact (bytes_helloAt hlen hcount).symm
  · rintro ⟨h, henc, hmem⟩
    obtain ⟨hkey, -, rfl⟩ := encode_hello_ok.mp henc
    refine ⟨h.offeredSchemes.length, ?_, h.windows.2.2.2.symm, ?_⟩
    · rw [h.bytes_length, hkey, Nat.add_assoc]
    · rw [h.bytes_eq, window_mid h.head_length (by simp)]
      exact List.mem_map_of_mem hmem

theorem accepted_iff : (∃ h, decodeHello body = .ok h) ↔
    HelloShape body ∧ body.length ≤ helloFixedLen + maxFrameBody + mldsa65PubLen := by
  rw [helloShape_iff]
  constructor
  · rintro ⟨h, hdec⟩
    obtain ⟨henc, hmem, hfit⟩ := decodeHello_iff.mp hdec
    have hlen := (HelloFrame.shown henc).2
    exact ⟨⟨h, henc, hmem⟩, by omega⟩
  · rintro ⟨⟨h, henc, hmem⟩, hfit⟩
    have hlen := (HelloFrame.shown henc).2
    exact ⟨h, decodeHello_iff.mpr ⟨henc, hmem, by omega⟩⟩

theorem allowed_iff : (∃ h : HelloFrame, h.Allowed ∧ h.encode = .ok body) ↔
    HelloShape body ∧ PQMode.Named ⟨body.getD 1 0⟩ := by
  rw [helloShape_iff]
  constructor
  · rintro ⟨h, hallowed, henc⟩
    rw [← (HelloFrame.shown henc).1]
    exact ⟨⟨h, henc, hallowed.included⟩, hallowed.mode⟩
  · rintro ⟨⟨h, henc, hmem⟩, hmode⟩
    rw [← (HelloFrame.shown henc).1] at hmode
    obtain ⟨hkey, hne, -⟩ := encode_hello_ok.mp henc
    exact ⟨h, ⟨hmode, hne, hmem, hkey⟩, henc⟩

/-- **The HELLO codec, exactly.**  Decoder and specification agree on a body just when it has not the shape of a
HELLO at all, or its second byte names a mode if and only if it is no longer than the decoder reads, which every
frame is. What the encoder writes within the frame limit is read back just when it offers
its suite, and an accepted body is written back byte for byte. -/
theorem hello_codec_exact (body : List UInt8) :
    (((∃ h, decodeHello body = .ok h) ↔ ∃ h : HelloFrame, h.Allowed ∧ h.encode = .ok body) ↔
      (HelloShape body → (PQMode.Named ⟨body.getD 1 0⟩ ↔
        body.length ≤ helloFixedLen + maxFrameBody + mldsa65PubLen))) ∧
    (∀ h : HelloFrame, h.encode = .ok body → body.length ≤ maxFrameBody →
      (decodeHello body = .ok h ↔ h.suite ∈ h.offeredSchemes)) ∧
    ∀ h, decodeHello body = .ok h → h.encode = .ok body := by
  refine ⟨?_, ?_, fun h => encode_decodeHello⟩
  · rw [accepted_iff, allowed_iff, and_congr_right_iff]
    exact imp_congr_right fun _ => Iff.comm
  intro h henc hfit
  have hschemes : h.offeredSchemes.length ≤ maxFrameBody := by
    have hlen := (HelloFrame.shown henc).2
    omega
  exact ⟨fun hdec => (decodeHello_iff.mp hdec).2.1, fun hmem => decodeHello_iff.mpr ⟨henc, hmem, hschemes⟩⟩

def plainHello (mode : PQMode) (suite : SuiteID) (schemes : List SuiteID) : HelloFrame :=
  { suite := suite
    pqMode := mode
    clientRandom := .zero _
    timestampNS := 0
    clientID := .zero _
    offeredSchemes := schemes
    staticPKInitiator := List.replicate mldsa65PubLen 0 }

theorem encode_plainHello (mode : PQMode) (suite : SuiteID) {schemes : List SuiteID} (hne : schemes ≠ []) :
    (plainHello mode suite schemes).encode = .ok (plainHello mode suite schemes).bytes :=
  encode_hello_ok.mpr ⟨List.length_replicate, hne, rfl⟩

/-- A HELLO that offers its one suite in a mode of the specification is read back as itself. -/
theorem hello_codec_exact_pqOnly :
    (plainHello pqModePQOnly suiteX25519MLKEM [suiteX25519MLKEM]).Allowed ∧
      decodeHello (plainHello pqModePQOnly suiteX25519MLKEM [suiteX25519MLKEM]).bytes =
        .ok (plainHello pqModePQOnly suiteX25519MLKEM [suiteX25519MLKEM]) := by
  refine ⟨⟨.inr (.inr rfl), List.cons_ne_nil _ _, List.mem_singleton.mpr rfl, List.length_replicate⟩, ?_⟩
  exact ((hello_codec_exact _).2.1 _ (encode_plainHello _ _ (List.cons_ne_nil _ _)) (by decide +kernel)).mpr
    (List.mem_singleton.mpr rfl)

/-- Mode 3 is in no table, and the decoder takes it; a suite that is not offered is encoded, and the decoder
refuses what was encoded. -/
theorem hello_mode_unchecked :
    (decodeHello (plainHello ⟨3⟩ suiteX25519MLKEM [suiteX25519MLKEM]).bytes =
        .ok (plainHello ⟨3⟩ suiteX25519MLKEM [suiteX25519MLKEM]) ∧
      ¬∃ h : HelloFrame, h.Allowed ∧
        h.encode = .ok (plainHello ⟨3⟩ suiteX25519MLKEM [suiteX25519MLKEM]).bytes) ∧
    ∃ body, (plainHello pqModePQOnly suiteReservedLo [suiteX25519MLKEM]).encode = .ok body ∧
      body.length ≤ maxFrameBody ∧ ∀ h, decodeHello body ≠ .ok h := by
  refine ⟨⟨?_, ?_⟩, _, encode_plainHello _ _ (List.cons_ne_nil _ _), ?_, ?_⟩
  · decide +kernel
  · rintro ⟨h, hallowed, henc⟩
    have hmode := hallowed.mode
    have hthree : h.pqMode = ⟨3⟩ := (HelloFrame.shown henc).1
    rw [hthree] at hmode
    revert hmode
    unfold PQMode.Named
    decide
  · decide +kernel
  · intro h hdec
    have hrefused :
        (decodeHello (plainHello pqModePQOnly suiteReservedLo [suiteX25519MLKEM]).bytes).toBool = false := by
      decide +kernel
    rw [hdec] at hrefused
    cases hrefused

end Zap.Handshake
