import TokamakTitan.Library.Checked
import TokamakTitan.Library.BitField

/-! `Lib_Buffer` and `ChainStorageContainer`: an append-only array whose length is packed into one
word with twenty-seven bytes of extra data. -/
namespace Rollup
open Checked BitField BitVec

structure Bytes27 where
  word : BitVec 256
  low_eq : field word 0 40 = 0#40
  deriving DecidableEq

structure BufferContext where
  length : Uint40
  extraData : Bytes27
  deriving DecidableEq

def lengthMask : BitVec 256 := 0x000000000000000000000000000000000000000000000000000000FFFFFFFFFF

def extraDataMask : BitVec 256 :=
  0xFFFFFFFFFFFFFFFFFFFFFFFFFFFFFFFFFFFFFFFFFFFFFFFFFFFFFF0000000000

theorem lengthMask_eq : lengthMask = mask 256 0 40 := by decide

theorem extraDataMask_eq : extraDataMask = mask 256 40 216 := by decide

theorem field_and_extraDataMask (x : BitVec 256) : field (x &&& extraDataMask) 0 40 = 0#40 := by
  apply eq_of_getLsbD_eq
  intro i hi
  have hlt : ¬ 40 ≤ 0 + i := by omega
  simp only [extraDataMask_eq, getLsbD_field, getLsbD_and, mask, getLsbD_place,
    getLsbD_zero, hlt, decide_false, Bool.and_false, Bool.false_and]

variable (ctx : BufferContext)

def BufferContext.pack : BitVec 256 :=
  ctx.length.setWidth 256 ||| ctx.extraData.word

def BufferContext.unpack (context : BitVec 256) : BufferContext :=
  { length := (context &&& lengthMask).setWidth 40
    extraData := ⟨context &&& extraDataMask, field_and_extraDataMask context⟩ }

theorem BufferContext.pack_length : (unpack ctx.pack).length = ctx.length := by
  rw [unpack, lengthMask_eq, mask_low, pack, field_or, ctx.extraData.low_eq, setWidth_eq_place,
    field_place _ (by norm_num), or_zero]

theorem BufferContext.pack_extraData : (unpack ctx.pack).extraData = ctx.extraData := by
  obtain ⟨length, word, low⟩ := ctx
  simp only [unpack, pack, Bytes27.mk.injEq]
  apply eq_of_getLsbD_eq
  intro i hi
  rw [getLsbD_and, getLsbD_or, extraDataMask_eq, mask, getLsbD_place, getLsbD_setWidth]
  by_cases h : 40 ≤ i
  · -- A high bit belongs to the extra data.
    have hones : i - 40 < 216 := by omega
    simp only [getLsbD_of_ge length i h, getLsbD_allOnes, hi, h, hones,
      decide_true, Bool.and_true, Bool.and_false, Bool.false_or]
  · have hzero : word.getLsbD i = false := by
      have hbit := getLsbD_field word 0 40 i
      rw [low, getLsbD_zero, decide_eq_true (by omega), Nat.zero_add] at hbit
      exact hbit.symm
    simp only [hzero, h, decide_false, Bool.and_false, Bool.false_and]

@[simp] theorem BufferContext.unpack_pack : unpack ctx.pack = ctx := by
  have hlength := pack_length ctx
  have hextra := pack_extraData ctx
  cases hctx : unpack ctx.pack
  rw [hctx] at hlength hextra
  cases ctx
  simp_all

structure Buffer (α : Type) where
  context : BitVec 256
  buf : ℕ → α

namespace Buffer

variable {α : Type} (self : Buffer α)

def getContext : BufferContext := BufferContext.unpack self.context

def setContext (ctx : BufferContext) : Buffer α :=
  {self with context := ctx.pack}

def push (value : α) (extraData : Bytes27) : Result (Buffer α) := do
  let ctx := self.getContext
  let length ← add ctx.length 1#40
  return setContext {self with buf := Function.update self.buf ctx.length.toNat value}
    ⟨length, extraData⟩

def get (index : Uint40) : Result α := do
  require (index.toNat < self.getContext.length.toNat) "Index out of bounds."
  return self.buf index.toNat

def deleteElementsAfterInclusive (index : Uint40) (extraData : Bytes27) : Result (Buffer α) := do
  require (index.toNat < self.getContext.length.toNat) "Index out of bounds."
  return self.setContext ⟨index, extraData⟩

def toList : List α :=
  (List.range self.getContext.length.toNat).map self.buf

@[simp] theorem getContext_setContext (ctx : BufferContext) :
    (self.setContext ctx).getContext = ctx := BufferContext.unpack_pack ctx

@[simp] theorem length_toList : self.toList.length = self.getContext.length.toNat := by
  simp [toList]

theorem toList_empty (buf : ℕ → α) : (⟨0, buf⟩ : Buffer α).toList = [] := by
  have hzero : (BufferContext.unpack 0).length.toNat = 0 := by decide
  rw [toList, getContext, hzero]
  rfl

variable {self self' : Buffer α} {extraData : Bytes27} {value : α}

theorem push_eq_ok (h : self.push value extraData = .ok self') :
    self'.toList = self.toList ++ [value] ∧ self'.getContext.extraData = extraData := by
  simp only [push, bind_eq_ok, pure_eq_ok, add_eq_ok] at h
  obtain ⟨length, hlength, rfl⟩ := h
  have hone : (1#40).toNat = 1 := by decide
  rw [hone] at hlength
  constructor
  · rw [toList, getContext_setContext, ← hlength, List.range_succ, List.map_append, toList]
    congr 1
    · apply List.map_congr_left
      intro i hi
      exact Function.update_of_ne (List.mem_range.mp hi).ne _ _
    · simp [setContext]
  · rw [getContext_setContext]

theorem get_eq_ok {index : Uint40} :
    self.get index = .ok value ↔ self.toList[index.toNat]? = some value := by
  simp only [get, bind_eq_ok, require_eq_ok, pure_eq_ok, exists_const, toList, List.getElem?_map]
  by_cases h : index.toNat < self.getContext.length.toNat
  · simp [h]
  · simp [h]

theorem deleteElementsAfterInclusive_eq_ok {index : Uint40}
    (h : self.deleteElementsAfterInclusive index extraData = .ok self') :
    index.toNat < self.toList.length ∧ self'.toList = self.toList.take index.toNat ∧
      self'.getContext.extraData = extraData := by
  simp only [deleteElementsAfterInclusive, bind_eq_ok, require_eq_ok, pure_eq_ok] at h
  obtain ⟨-, hlt, rfl⟩ := h
  refine ⟨by rw [length_toList]; exact hlt, ?_, by rw [getContext_setContext]⟩
  rw [toList, toList, getContext_setContext, ← List.map_take, List.take_range,
    Nat.min_eq_left hlt.le]
  rfl

end Buffer

structure ChainStorageContainer (α : Type) where
  owner : String
  buffer : Buffer α

namespace ChainStorageContainer

variable {α : Type} (resolve : String → Address) (msgSender : Address)
  (self : ChainStorageContainer α)

def onlyOwner : Result Unit :=
  require (msgSender = resolve self.owner)
    "ChainStorageContainer: Function can only be called by the owner."

def getGlobalMetadata : Bytes27 :=
  self.buffer.getContext.extraData

def length : Uint256 :=
  self.buffer.getContext.length.setWidth 256

def push (object : α) (globalMetadata : Bytes27) : Result (ChainStorageContainer α) := do
  self.onlyOwner resolve msgSender
  let buffer ← self.buffer.push object globalMetadata
  return {self with buffer}

def get (index : Uint256) : Result α :=
  self.buffer.get (index.setWidth 40)

def deleteElementsAfterInclusive (index : Uint256) (globalMetadata : Bytes27) :
    Result (ChainStorageContainer α) := do
  self.onlyOwner resolve msgSender
  let buffer ← self.buffer.deleteElementsAfterInclusive (index.setWidth 40) globalMetadata
  return {self with buffer}

def toList : List α := self.buffer.toList

variable {resolve msgSender}

theorem length_toNat : self.length.toNat = self.toList.length := by
  rw [length, toList, Buffer.length_toList, toNat_setWidth, Nat.mod_eq_of_lt]
  exact self.buffer.getContext.length.isLt.trans (by norm_num)

theorem length_toList_lt : self.toList.length < 2 ^ 40 := by
  rw [toList, Buffer.length_toList]
  exact self.buffer.getContext.length.isLt

variable {self self' : ChainStorageContainer α} {globalMetadata : Bytes27} {object : α}

theorem push_eq_ok (h : self.push resolve msgSender object globalMetadata = .ok self') :
    self'.toList = self.toList ++ [object] ∧ self'.getGlobalMetadata = globalMetadata := by
  simp only [push, bind_eq_ok, pure_eq_ok] at h
  obtain ⟨-, -, buffer, hpush, rfl⟩ := h
  exact Buffer.push_eq_ok hpush

variable {index : Uint256}

theorem get_eq_ok :
    self.get index = .ok object ↔ self.toList[index.toNat % 2 ^ 40]? = some object := by
  rw [get, Buffer.get_eq_ok, toNat_setWidth, toList]

theorem deleteElementsAfterInclusive_eq_ok
    (h : self.deleteElementsAfterInclusive resolve msgSender index globalMetadata = .ok self') :
    self'.toList = self.toList.take (index.toNat % 2 ^ 40) ∧
      self'.getGlobalMetadata = globalMetadata := by
  simp only [deleteElementsAfterInclusive, bind_eq_ok, pure_eq_ok] at h
  obtain ⟨-, -, buffer, hdelete, rfl⟩ := h
  obtain ⟨-, hlist, hextra⟩ := Buffer.deleteElementsAfterInclusive_eq_ok hdelete
  rw [toNat_setWidth] at hlist
  exact ⟨hlist, hextra⟩

end ChainStorageContainer

end Rollup
