import TokamakTitan.Library.Abi
import TokamakTitan.Library.Checked

/-! Cross-domain calldata (`Lib_CrossDomainUtils`) and the packed hashes of the messengers and of
the message passer, each of which determines what was encoded. -/
namespace Messaging
open List hiding tail length_tail
open Checked Abi BigEndian

def DEFAULT_XDOMAIN_SENDER : Address := 0x000000000000000000000000000000000000dEaD

def L2_TO_L1_MESSAGE_PASSER : Address := 0x4200000000000000000000000000000000000000

def L2_CROSS_DOMAIN_MESSENGER : Address := 0x4200000000000000000000000000000000000007

structure CrossDomainMessage where
  target : Address
  sender : Address
  message : Bytes
  messageNonce : Uint256
  deriving DecidableEq

def relayMessageSelector : Bytes := [0xcb, 0xd4, 0xec, 0xe9]

def encodeXDomainCalldata (m : CrossDomainMessage) : Bytes :=
  relayMessageSelector ++
    encodeBytes [m.target.setWidth 256, m.sender.setWidth 256] m.message [m.messageNonce]

/-- The dispatch to `relayMessage` and the decoding of its arguments; other call data does not
reach the function. -/
def decodeRelayMessage (data : Bytes) : Option CrossDomainMessage := do
  let args := data.drop 4
  guard (data.take 4 = relayMessageSelector ∧ 128 ≤ args.length)
  let target ← decodeAddress args 0
  let sender ← decodeAddress args 32
  let message ← decodeBytes args 64
  return ⟨target, sender, message, calldataload args 96⟩

def addressBytes (a : Address) : Bytes := encode 20 a.toNat

structure Hashing (H : Type) where
  keccak : Bytes → H
  toBytes : H → Bytes

structure Hashing.Injective {H : Type} (hash : Hashing H) : Prop where
  keccak : Function.Injective hash.keccak
  toBytes : Function.Injective hash.toBytes

section Hashes

variable {H : Type} (hash : Hashing H) (m : CrossDomainMessage)

def xDomainCalldataHash : H := hash.keccak (encodeXDomainCalldata m)

def sentMessageKey (message : Bytes) (sender : Address) : H :=
  hash.keccak (message ++ addressBytes sender)

def mappingSlot (key : H) : H := hash.keccak (hash.toBytes key ++ word 0)

def relayId (sender : Address) (number : Uint256) : H :=
  hash.keccak (encodeXDomainCalldata m ++ addressBytes sender ++ word number)

end Hashes

theorem setWidth_address_inj {a b : Address} (h : a.setWidth 256 = b.setWidth 256) : a = b := by
  apply BitVec.eq_of_toNat_eq
  have hnat := congrArg BitVec.toNat h
  have ha := a.isLt
  have hb := b.isLt
  rw [BitVec.toNat_setWidth, BitVec.toNat_setWidth] at hnat
  omega

theorem encodeXDomainCalldata_inj : Function.Injective encodeXDomainCalldata := by
  intro m m' h
  obtain ⟨hwords, hbytes, hnonce⟩ :=
    encodeBytes_inj (by simp) (by simp) (append_cancel_left h)
  simp only [cons.injEq, and_true] at hwords hnonce
  obtain ⟨htarget, hsender⟩ := hwords
  obtain ⟨target, sender, message, nonce⟩ := m
  obtain ⟨target', sender', message', nonce'⟩ := m'
  simp only [CrossDomainMessage.mk.injEq]
  exact ⟨setWidth_address_inj htarget, setWidth_address_inj hsender, hbytes, hnonce⟩

theorem length_message_le (m : CrossDomainMessage) :
    m.message.length ≤ (encodeXDomainCalldata m).length := by
  simp only [encodeXDomainCalldata, encodeBytes, length_append, length_tail]
  omega

theorem decodeRelayMessage_encode {m : CrossDomainMessage} (hm : m.message.length < 2 ^ 64) :
    decodeRelayMessage (encodeXDomainCalldata m) = some m := by
  obtain ⟨target, sender, message, nonce⟩ := m
  generalize hargs : encodeBytes [target.setWidth 256, sender.setWidth 256] message [nonce] = args
  have hdrop : (encodeXDomainCalldata ⟨target, sender, message, nonce⟩).drop 4 = args := by
    rw [encodeXDomainCalldata, hargs]
    rfl
  have htake : (encodeXDomainCalldata ⟨target, sender, message, nonce⟩).take 4 =
      relayMessageSelector := rfl
  have hlayout : args = word (target.setWidth 256) ++ (word (sender.setWidth 256) ++
      (encode 32 128 ++ (word nonce ++ tail message))) := by
    rw [← hargs]
    simp only [encodeBytes, words, flatMap_cons, flatMap_nil, append_nil,
      append_assoc, length_cons, length_nil]
  have hlen : 128 ≤ args.length := by
    rw [hlayout]
    simp only [length_append, length_word, length_encode]
    omega
  have htarget : decodeAddress args 0 = some target := by
    have hread := decodeAddress_word [] target
      (word (sender.setWidth 256) ++ (encode 32 128 ++ (word nonce ++ tail message)))
    rw [nil_append, length_nil, ← hlayout] at hread
    exact hread
  have hsender : decodeAddress args 32 = some sender := by
    have hread := decodeAddress_word (word (target.setWidth 256)) sender
      (encode 32 128 ++ (word nonce ++ tail message))
    rw [← hlayout, length_word] at hread
    exact hread
  have hmessage : decodeBytes args 64 = some message := by
    have hread := decodeBytes_encodeBytes [target.setWidth 256, sender.setWidth 256] [nonce]
      message hm (by simp)
    rw [hargs] at hread
    exact hread
  have hnonce : calldataload args 96 = nonce := by
    have hread := calldataload_word (word (target.setWidth 256) ++ (word (sender.setWidth 256) ++
      encode 32 128)) nonce (tail message)
    simp only [append_assoc, ← hlayout, length_append, length_word, length_encode] at hread
    exact hread
  simp only [decodeRelayMessage, hdrop, htake, hlen, htarget, hsender, hmessage, hnonce, and_self,
    guard_true, Option.bind_eq_bind, Option.bind_some, Option.pure_def]

@[simp] theorem length_addressBytes (a : Address) : (addressBytes a).length = 20 :=
  length_encode 20 _

theorem addressBytes_inj {a b : Address} (h : addressBytes a = addressBytes b) : a = b := by
  apply BitVec.eq_of_toNat_eq
  exact encode_inj_of_lt a.isLt b.isLt h

section Injective

variable {H : Type} {hash : Hashing H}

theorem sentMessageKey_inj (h : hash.Injective) {message message' : Bytes}
    {sender sender' : Address}
    (heq : sentMessageKey hash message sender = sentMessageKey hash message' sender') :
    message = message' ∧ sender = sender' := by
  have hlen : (addressBytes sender).length = (addressBytes sender').length := by simp
  obtain ⟨hmessage, hsender⟩ := append_inj' (h.keccak heq) hlen
  exact ⟨hmessage, addressBytes_inj hsender⟩

theorem mappingSlot_inj (h : hash.Injective) {key key' : H}
    (heq : mappingSlot hash key = mappingSlot hash key') : key = key' :=
  h.toBytes (append_cancel_right (h.keccak heq))

end Injective

def plain : Hashing Bytes := ⟨id, id⟩

theorem plain_injective : plain.Injective := ⟨Function.injective_id, Function.injective_id⟩

end Messaging
