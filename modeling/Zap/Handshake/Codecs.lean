/-
# Zap.Handshake.Codecs — what the frame codecs guarantee.

The codec facts the protocol proofs ride are of two kinds:

* a decoder undoes its encoder (`decodeHello_bytes`, `decodeKEMInit_encode`, …), so a receiver of the
  sender's bytes sees the sender's fields;
* a decoder accepts only bodies of the right length (`decodeKEMInit_length`, `decodeKEMReply_length`), so the
  unframed concatenations of the transcript stay unambiguous.
-/
import Zap.Handshake.Frames

namespace Zap.Handshake

open Zap.Lib

/-! ## HELLO -/

variable {body : Bytes}

theorem encode_hello_ok {h : HelloFrame} :
    h.encode = .ok body ↔
      h.staticPKInitiator.length = mldsa65PubLen ∧ h.offeredSchemes ≠ [] ∧ body = h.bytes := by
  unfold HelloFrame.encode
  split
  · rename_i hlen
    simp [hlen]
  rename_i hlen
  split
  · rename_i hnone
    simp [List.eq_nil_of_length_eq_zero hnone]
  rename_i hsome
  have hne : h.offeredSchemes ≠ [] := by
    intro hnil
    exact hsome (by rw [hnil]; rfl)
  simp only [Except.ok.injEq]
  exact ⟨fun hbody => ⟨not_not.mp hlen, hne, hbody.symm⟩, fun hbody => hbody.2.2.symm⟩

section Hello

variable {h : HelloFrame}

def HelloFrame.head (h : HelloFrame) : Bytes :=
  [h.suite.byte, h.pqMode.byte] ++ h.clientRandom.bytes ++ be 8 h.timestampNS.toNat ++
    h.clientID.bytes ++ be 4 h.offeredSchemes.length

theorem HelloFrame.head_length (h : HelloFrame) : h.head.length = helloFixedLen := by
  simp [HelloFrame.head, helloFixedLen, h.clientRandom.len, h.clientID.len, clientRandLen, idLen, timestampLen]

theorem HelloFrame.bytes_eq (h : HelloFrame) :
    h.bytes = h.head ++ (h.offeredSchemes.map SuiteID.byte ++ h.staticPKInitiator) := by
  simp [HelloFrame.bytes, HelloFrame.head, encodeSchemes]

theorem HelloFrame.bytes_length (h : HelloFrame) :
    h.bytes.length = helloFixedLen + (h.offeredSchemes.length + h.staticPKInitiator.length) := by
  rw [h.bytes_eq]
  simp [h.head_length]

theorem HelloFrame.schemes_le (h : HelloFrame) : h.offeredSchemes.length ≤ h.bytes.length := by
  rw [h.bytes_length]
  omega

theorem HelloFrame.windows (h : HelloFrame) :
    window h.bytes 2 clientRandLen = h.clientRandom.bytes ∧
      window h.bytes 18 timestampLen = be 8 h.timestampNS.toNat ∧
      window h.bytes 26 idLen = h.clientID.bytes ∧
      window h.bytes 58 4 = be 4 h.offeredSchemes.length := by
  have hr := h.clientRandom.len
  have hi := h.clientID.len
  refine ⟨?_, ?_, ?_, ?_⟩
  · have hsplit : h.bytes = [h.suite.byte, h.pqMode.byte] ++ (h.clientRandom.bytes ++
        (be 8 h.timestampNS.toNat ++ h.clientID.bytes ++ encodeSchemes h.offeredSchemes ++
          h.staticPKInitiator)) := by simp [HelloFrame.bytes]
    rw [hsplit, window_mid (by simp) hr]
  · have hsplit : h.bytes = ([h.suite.byte, h.pqMode.byte] ++ h.clientRandom.bytes) ++
        (be 8 h.timestampNS.toNat ++ (h.clientID.bytes ++ encodeSchemes h.offeredSchemes ++
          h.staticPKInitiator)) := by simp [HelloFrame.bytes]
    rw [hsplit, window_mid (by simp [hr]) (be_length ..)]
  · have hsplit : h.bytes = ([h.suite.byte, h.pqMode.byte] ++ h.clientRandom.bytes ++
        be 8 h.timestampNS.toNat) ++ (h.clientID.bytes ++ (encodeSchemes h.offeredSchemes ++
          h.staticPKInitiator)) := by simp [HelloFrame.bytes]
    rw [hsplit, window_mid (by simp [hr]) hi]
  · have hsplit : h.bytes = ([h.suite.byte, h.pqMode.byte] ++ h.clientRandom.bytes ++
        be 8 h.timestampNS.toNat ++ h.clientID.bytes) ++ (be 4 h.offeredSchemes.length ++
          (h.offeredSchemes.map SuiteID.byte ++ h.staticPKInitiator)) := by
      simp [HelloFrame.bytes, encodeSchemes]
    rw [hsplit, window_mid (by simp [hr, hi, clientRandLen, idLen]) (be_length ..)]

/-- **HELLO round trip.**  The body of a HELLO decodes to it, provided its suite is among the schemes. -/
theorem decodeHello_bytes (hpk : h.staticPKInitiator.length = mldsa65PubLen)
    (hne : h.offeredSchemes ≠ []) (hfit : h.offeredSchemes.length ≤ maxFrameBody) :
    decodeHello h.bytes = if h.suite ∈ h.offeredSchemes then .ok h
      else .error (decodeErr ("HELLO suite 0x" ++ hex02 h.suite.byte ++ " not in offered_schemes")) := by
  have hlen := h.bytes_length
  rw [hpk] at hlen
  obtain ⟨hrnd, hts, hid, hcount⟩ := h.windows
  have hpos : 0 < h.offeredSchemes.length := List.length_pos_iff.mpr hne
  have hmax : maxFrameBody = 2 ^ 24 := rfl
  have hschemes : ofBE (window h.bytes 58 4) = h.offeredSchemes.length := by
    rw [hcount, ofBE_be_of_lt (by omega)]
  have hlist : (window h.bytes helloFixedLen h.offeredSchemes.length).map SuiteID.mk = h.offeredSchemes := by
    rw [h.bytes_eq, window_mid h.head_length (by simp), List.map_map]
    exact List.map_id _
  have hkey : window h.bytes (helloFixedLen + h.offeredSchemes.length) mldsa65PubLen = h.staticPKInitiator := by
    rw [h.bytes_eq, ← List.append_assoc, window_append_right (by simp [h.head_length]),
      List.take_of_length_le hpk.le]
  have htime : UInt64.ofNat (ofBE (be 8 h.timestampNS.toNat)) = h.timestampNS := ofBE64_be64 _
  have hsuite : h.bytes.getD 0 0 = h.suite.byte := rfl
  have hmode : h.bytes.getD 1 0 = h.pqMode.byte := rfl
  unfold decodeHello
  simp only [hschemes, hlist, hkey, hrnd, hts, hid, htime, hsuite, hmode, Arr.copy_self]
  rw [if_neg (by omega), if_neg (by omega), if_neg (by omega), if_neg (by omega)]
  by_cases hmem : h.suite ∈ h.offeredSchemes
  · rw [if_pos hmem, if_neg (not_not.mpr hmem)]
  · rw [if_neg hmem, if_pos hmem]

def helloAt (body : Bytes) (n : Nat) : HelloFrame where
  suite := ⟨body.getD 0 0⟩
  pqMode := ⟨body.getD 1 0⟩
  clientRandom := .copy _ (window body 2 clientRandLen)
  timestampNS := ofBE64 (window body 18 timestampLen)
  clientID := .copy _ (window body 26 idLen)
  offeredSchemes := (window body helloFixedLen n).map SuiteID.mk
  staticPKInitiator := window body (helloFixedLen + n) mldsa65PubLen

/-- What the decoder of HELLO checks, and where it finds the fields. -/
theorem decodeHello_inv {body : Bytes} (hdec : decodeHello body = .ok h) :
    ∃ n, ofBE (window body 58 4) = n ∧ 0 < n ∧ n ≤ maxFrameBody ∧
      body.length = helloFixedLen + n + mldsa65PubLen ∧ h.suite ∈ h.offeredSchemes ∧ h = helloAt body n := by
  unfold decodeHello at hdec
  split at hdec
  · cases hdec
  rename_i hlong
  dsimp only at hdec
  split at hdec
  · cases hdec
  rename_i hcount
  split at hdec
  · cases hdec
  rename_i hsome
  split at hdec
  · cases hdec
  rename_i hrest
  split at hdec
  · cases hdec
  rename_i hmem
  cases hdec
  refine ⟨_, rfl, Nat.pos_of_ne_zero hsome, ?_, ?_, not_not.mp hmem, rfl⟩
  · omega
  · omega

theorem decodeHello_length {body : Bytes} (hdec : decodeHello body = .ok h) :
    h.staticPKInitiator.length = mldsa65PubLen := by
  obtain ⟨n, -, -, -, hlen, -, rfl⟩ := decodeHello_inv hdec
  exact window_length hlen.ge

end Hello

/-! ## KEM_INIT and KEM_REPLY -/

theorem KEMInitFrame.encode_length (k : KEMInitFrame) : k.encode.length = x25519PubLen + mlkem768PubLen := by
  rw [KEMInitFrame.encode, List.length_append, k.x25519EphPub.len, k.mlkemEphPub.len]

theorem decodeKEMInit_encode (k : KEMInitFrame) : decodeKEMInit k.encode = .ok k := by
  have hx := k.x25519EphPub.len
  have htake : k.encode.take x25519PubLen = k.x25519EphPub.bytes := by
    rw [KEMInitFrame.encode, List.take_left' hx]
  have hdrop : k.encode.drop x25519PubLen = k.mlkemEphPub.bytes := by
    rw [KEMInitFrame.encode, List.drop_left' hx]
  unfold decodeKEMInit
  rw [if_neg (not_not.mpr k.encode_length), htake, hdrop, Arr.copy_self, Arr.copy_self]

theorem decodeKEMInit_length {k : KEMInitFrame} (h : decodeKEMInit body = .ok k) :
    body.length = x25519PubLen + mlkem768PubLen := by
  unfold decodeKEMInit at h
  split at h
  · cases h
  · rename_i hlen
    exact not_not.mp hlen

variable {k : KEMReplyFrame}

theorem encode_reply_ok :
    k.encode = .ok body ↔ k.staticPKResponder.length = mldsa65PubLen ∧
      body = k.x25519EphPub.bytes ++ k.mlkemCiphertext.bytes ++ k.staticPKResponder := by
  unfold KEMReplyFrame.encode
  split
  · rename_i hlen
    simp [hlen]
  · rename_i hlen
    simp only [Except.ok.injEq]
    exact ⟨fun hbody => ⟨not_not.mp hlen, hbody.symm⟩, fun hbody => hbody.2.symm⟩

theorem decodeKEMReply_encode (h : k.encode = .ok body) :
    body.length = kemReplyLen ∧ decodeKEMReply body = .ok k := by
  obtain ⟨hpk, rfl⟩ := encode_reply_ok.mp h
  have hx := k.x25519EphPub.len
  have hct := k.mlkemCiphertext.len
  have hlen : (k.x25519EphPub.bytes ++ k.mlkemCiphertext.bytes ++ k.staticPKResponder).length = kemReplyLen := by
    rw [List.length_append, List.length_append, hx, hct, hpk]
    rfl
  refine ⟨hlen, ?_⟩
  have hfirst : window (k.x25519EphPub.bytes ++ k.mlkemCiphertext.bytes ++ k.staticPKResponder) 0
      x25519PubLen = k.x25519EphPub.bytes := by
    rw [List.append_assoc]
    exact window_mid (a := []) rfl hx
  have hsecond : window (k.x25519EphPub.bytes ++ k.mlkemCiphertext.bytes ++ k.staticPKResponder)
      x25519PubLen mlkem768CTLen = k.mlkemCiphertext.bytes := by
    rw [List.append_assoc, window_mid hx hct]
  have hthird : window (k.x25519EphPub.bytes ++ k.mlkemCiphertext.bytes ++ k.staticPKResponder)
      (x25519PubLen + mlkem768CTLen) mldsa65PubLen = k.staticPKResponder := by
    rw [window_append_right (by simp [hx, hct]), List.take_of_length_le hpk.le]
  unfold decodeKEMReply
  rw [if_neg (not_not.mpr hlen), hfirst, hsecond, hthird, Arr.copy_self, Arr.copy_self]

theorem decodeKEMReply_length (h : decodeKEMReply body = .ok k) :
    body.length = kemReplyLen ∧ k.staticPKResponder.length = mldsa65PubLen := by
  unfold decodeKEMReply at h
  split at h
  · cases h
  rename_i hlen
  have hbody := not_not.mp hlen
  cases h
  refine ⟨hbody, window_length ?_⟩
  rw [hbody]
  exact Nat.le_refl _

/-! ## AUTH, DATA, REKEY and ALERT -/

theorem encode_auth_ok {a : AuthFrame} (hrole : a.role = roleInitiator ∨ a.role = roleResponder) :
    a.encode = .ok body ↔ a.signature.length = mldsa65SigLen ∧ body = a.role.byte :: a.signature := by
  unfold AuthFrame.encode
  split
  · rename_i hlen
    simp [hlen]
  · rename_i hlen
    rw [if_neg (by rintro ⟨hi, hr⟩; exact hrole.elim hi hr), Except.ok.injEq]
    exact ⟨fun hbody => ⟨not_not.mp hlen, hbody.symm⟩, fun hbody => hbody.2.symm⟩

theorem decodeAuth_cons {role : AuthRole} {sig : Bytes} (hsig : sig.length = mldsa65SigLen)
    (hrole : role = roleInitiator ∨ role = roleResponder) :
    decodeAuth (role.byte :: sig) = .ok ⟨role, sig⟩ := by
  have hlen : (role.byte :: sig).length = 1 + mldsa65SigLen := by
    rw [List.length_cons, hsig, Nat.add_comm]
  unfold decodeAuth
  rw [if_neg (not_not.mpr hlen)]
  show ite (role ≠ roleInitiator ∧ role ≠ roleResponder) _ _ = _
  rw [if_neg (by rintro ⟨hi, hr⟩; exact hrole.elim hi hr)]
  rfl

theorem AuthFrame.role_of_encode {a : AuthFrame} (h : a.encode = .ok body) :
    a.role = roleInitiator ∨ a.role = roleResponder := by
  unfold AuthFrame.encode at h
  split at h
  · cases h
  · split at h
    · cases h
    · rename_i hrole
      exact not_and_or.mp hrole |>.imp not_not.mp not_not.mp

theorem decodeAuth_encode {a : AuthFrame} (h : a.encode = .ok body) : decodeAuth body = .ok a := by
  obtain ⟨hsig, rfl⟩ := (encode_auth_ok (AuthFrame.role_of_encode h)).mp h
  exact decodeAuth_cons hsig (AuthFrame.role_of_encode h)

theorem decodeData_encode {d : DataFrame} (h : d.ciphertext.length < 2 ^ 32) : decodeData d.encode = .ok d := by
  have hprefix : (be64 d.nonceCounter).length = nonceCtrLen := be64_length _
  have hwin : window d.encode nonceCtrLen 4 = be 4 d.ciphertext.length := by
    rw [DataFrame.encode, List.append_assoc, window_mid hprefix (be_length ..)]
  have hlen : d.encode.length = 12 + d.ciphertext.length := by
    simp [DataFrame.encode]
    omega
  have hshort : ¬d.encode.length < nonceCtrLen + 4 := by
    rw [hlen]
    simp [nonceCtrLen]
  have hmatch : ofBE (window d.encode nonceCtrLen 4) = d.encode.length - nonceCtrLen - 4 := by
    rw [hwin, ofBE_be_of_lt h, hlen]
    simp only [nonceCtrLen]
    omega
  unfold decodeData
  rw [if_neg hshort, if_neg (not_not.mpr hmatch)]
  have hctr : d.encode.take nonceCtrLen = be64 d.nonceCounter := by
    rw [DataFrame.encode, List.append_assoc, ← hprefix, List.take_left]
  have hct : d.encode.drop (nonceCtrLen + 4) = d.ciphertext := by
    have hhead : (be64 d.nonceCounter ++ be 4 d.ciphertext.length).length = nonceCtrLen + 4 := by simp
    rw [DataFrame.encode, ← hhead, List.drop_left]
  rw [hctr, hct, ofBE64_be64]

theorem decodeRekey_encode (r : RekeyFrame) : decodeRekey r.encode = .ok r := rfl

theorem decodeAlert_encode {a : AlertFrame} (h : a.detail.length < 2 ^ 32) : decodeAlert a.encode = .ok a := by
  have hwin : window a.encode 1 4 = be 4 a.detail.length := window_mid (a := [a.code.byte]) rfl (be_length ..)
  have hlen : a.encode.length = 5 + a.detail.length := by
    simp [AlertFrame.encode]
    omega
  have hmatch : ofBE (window a.encode 1 4) = a.encode.length - 5 := by
    rw [hwin, ofBE_be_of_lt h, hlen]
    omega
  have hdetail : a.encode.drop 5 = a.detail := by
    have hhead : (a.code.byte :: be 4 a.detail.length).length = 5 := by simp
    rw [AlertFrame.encode, ← hhead, List.drop_left]
  have hcode : a.encode.getD 0 0 = a.code.byte := rfl
  unfold decodeAlert
  rw [if_neg (by omega), if_neg (not_not.mpr hmatch), hdetail, hcode]

/-! ## HELLO_PSK -/

theorem HelloPSKFrame.encode_length (h : HelloPSKFrame) : h.encode.length = helloPSKLen := by
  simp [HelloPSKFrame.encode, helloPSKLen, Arr.len, clientRandLen, timestampLen, pskIDLen, x25519PubLen]

theorem decodeHelloPSK_encode (h : HelloPSKFrame) : decodeHelloPSK h.encode = .ok h := by
  have hr := h.clientRandom.len
  have hp := h.pskID.len
  have hrnd : window h.encode 2 clientRandLen = h.clientRandom.bytes := by
    have hsplit : h.encode = [h.suite.byte, h.pqMode.byte] ++ (h.clientRandom.bytes ++
        (be 8 h.timestampNS.toNat ++ h.pskID.bytes ++ h.x25519EphPub.bytes)) := by
      simp [HelloPSKFrame.encode]
    rw [hsplit, window_mid (by simp) hr]
  have hts : window h.encode 18 timestampLen = be 8 h.timestampNS.toNat := by
    have hsplit : h.encode = ([h.suite.byte, h.pqMode.byte] ++ h.clientRandom.bytes) ++
        (be 8 h.timestampNS.toNat ++ (h.pskID.bytes ++ h.x25519EphPub.bytes)) := by
      simp [HelloPSKFrame.encode]
    rw [hsplit, window_mid (by simp [hr]) (be_length ..)]
  have hpsk : window h.encode 26 pskIDLen = h.pskID.bytes := by
    have hsplit : h.encode = ([h.suite.byte, h.pqMode.byte] ++ h.clientRandom.bytes ++
        be 8 h.timestampNS.toNat) ++ (h.pskID.bytes ++ h.x25519EphPub.bytes) := by
      simp [HelloPSKFrame.encode]
    rw [hsplit, window_mid (by simp [hr]) hp]
  have hkey : window h.encode 42 x25519PubLen = h.x25519EphPub.bytes := by
    have hsplit : h.encode = ([h.suite.byte, h.pqMode.byte] ++ h.clientRandom.bytes ++
        be 8 h.timestampNS.toNat ++ h.pskID.bytes) ++ h.x25519EphPub.bytes := by
      simp [HelloPSKFrame.encode]
    rw [hsplit, window_append_right (by simp [hr, hp, clientRandLen, pskIDLen]),
      List.take_of_length_le h.x25519EphPub.len.le]
  have hsuite : h.encode.getD 0 0 = h.suite.byte := rfl
  have hmode : h.encode.getD 1 0 = h.pqMode.byte := rfl
  have htime : UInt64.ofNat (ofBE (be 8 h.timestampNS.toNat)) = h.timestampNS := ofBE64_be64 _
  unfold decodeHelloPSK
  simp only [h.encode_length, hrnd, hts, hpsk, hkey, hsuite, hmode, htime, Arr.copy_self]
  rw [if_neg (by simp)]

end Zap.Handshake
