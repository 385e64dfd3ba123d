import TokamakTitan.Proxyd.Methods

/-! Where the cache keeps the response to a request: its key, and the blocks it names. Keys
determine what they were built from as long as no part of a call holds a separator. -/
namespace Proxyd
open List
open Checked (bind_eq_ok)

/-- The key of a request whose response may be stored, and the block inputs that it names. -/
def slot (req : RPCReq) : Option (Text × List Text) :=
  match handlers req.method with
  | some .getBlockByNumber =>
    match decodeGetBlockByNumberParams req.params with
    | .ok (input, includeTx) =>
      if isBlockDependentParam input then none
      else some (getBlockByNumberKey input includeTx, [input])
    | .error _ => none
  | some .getBlockRange =>
    match decodeGetBlockRangeParams req.params with
    | .ok (start, end_, includeTx) =>
      if isBlockDependentParam start ∨ isBlockDependentParam end_ then none
      else some (getBlockRangeKey start end_ includeTx, [start, end_])
    | .error _ => none
  | some .ethCall =>
    match decodeEthCallParams req.params with
    | .ok (params, blockTag) =>
      if ethCallCacheable params blockTag then some (ethCallKey params blockTag, [blockTag])
      else none
    | .error _ => none
  | _ => none

inductive Slotted (req : RPCReq) : Text → List Text → Prop
  | getBlockByNumber {input : Text} {includeTx : Bool}
      (hm : handlers req.method = some .getBlockByNumber)
      (hd : decodeGetBlockByNumberParams req.params = .ok (input, includeTx))
      (hdep : ¬ isBlockDependentParam input = true) :
      Slotted req (getBlockByNumberKey input includeTx) [input]
  | getBlockRange {start end_ : Text} {includeTx : Bool}
      (hm : handlers req.method = some .getBlockRange)
      (hd : decodeGetBlockRangeParams req.params = .ok (start, end_, includeTx))
      (hdep : ¬ (isBlockDependentParam start = true ∨ isBlockDependentParam end_ = true)) :
      Slotted req (getBlockRangeKey start end_ includeTx) [start, end_]
  | ethCall {params : EthCallParams} {blockTag : Text}
      (hm : handlers req.method = some .ethCall)
      (hd : decodeEthCallParams req.params = .ok (params, blockTag))
      (hc : ethCallCacheable params blockTag = true) :
      Slotted req (ethCallKey params blockTag) [blockTag]

variable {req : RPCReq} {key : Text}

theorem Slotted.slot {inputs : List Text} (h : Slotted req key inputs) :
    slot req = some (key, inputs) := by
  cases h with
  | getBlockByNumber hm hd hdep => simp only [Proxyd.slot, hm, hd, if_neg hdep]
  | getBlockRange hm hd hdep => simp only [Proxyd.slot, hm, hd, if_neg hdep]
  | ethCall hm hd hc => simp only [Proxyd.slot, hm, hd, if_pos hc]

theorem slotted_of_slot {inputs : List Text} (h : slot req = some (key, inputs)) :
    Slotted req key inputs := by
  unfold slot at h
  split at h
  case h_1 hm =>
    split at h
    next input includeTx hd =>
      split at h
      · cases h
      next hdep =>
        cases h
        exact .getBlockByNumber hm hd hdep
    · cases h
  case h_2 hm =>
    split at h
    next start end_ includeTx hd =>
      split at h
      · cases h
      next hdep =>
        cases h
        exact .getBlockRange hm hd hdep
    · cases h
  case h_3 hm =>
    split at h
    next params blockTag hd =>
      split at h
      next hc =>
        cases h
        exact .ethCall hm hd hc
      · cases h
    · cases h
  case h_4 => cases h

def blockOf (input : Text) : Option ℕ :=
  if input = earliest then some 0
  else
    match decodeBlockInput input with
    | .ok n => some n.toNat
    | .error _ => none

inductive Hit (c : RPCCache) (req : RPCReq) : RPCRes → Prop
  | static (h : handlers req.method = some .static) (hv : (c.static req.method).isNull = false) :
      Hit c req (cachedRes req (c.static req.method))
  | blockNumber {n : BitVec 64} (h : handlers req.method = some .blockNumber)
      (hn : c.getLatestBlockNum = .ok n) : Hit c req (makeRPCRes req (encodeUint64 n.toNat))
  | gasPrice {n : BitVec 64} (h : handlers req.method = some .gasPrice)
      (hn : c.getLatestGasPrice = .ok n) : Hit c req (makeRPCRes req (encodeUint64 n.toNat))
  | entry {key : Text} {inputs : List Text} {v : Json} (h : slot req = some (key, inputs))
      (hv : c.entries key = some v) : Hit c req (cachedRes req v)

variable {c : RPCCache} {res : RPCRes}

theorem getImmutable_eq_some (h : c.getImmutable key req = .ok (some res)) :
    ∃ v, c.entries key = some v ∧ res = cachedRes req v := by
  unfold RPCCache.getImmutable at h
  split at h
  · obtain ⟨v, hv, rfl⟩ := Option.map_eq_some_iff.mp (Except.ok.inj h)
    exact ⟨v, hv, rfl⟩
  · cases h

theorem getRPC_eq_some (h : c.getRPC req = .ok (some res)) : Hit c req res := by
  unfold RPCCache.getRPC at h
  split at h
  case h_1 => cases h
  case h_2 hm =>
    unfold RPCCache.getStatic at h
    simp only [Except.ok.injEq] at h
    split at h
    · cases h
    next hv =>
      cases h
      exact .static hm (Bool.eq_false_iff.mpr hv)
  case h_3 hm =>
    obtain ⟨⟨input, includeTx⟩, hd, h⟩ := bind_eq_ok.mp h
    dsimp only at h
    split at h
    · cases h
    next hdep =>
      obtain ⟨v, hv, rfl⟩ := getImmutable_eq_some h
      exact .entry (Slotted.getBlockByNumber hm hd hdep).slot hv
  case h_4 hm =>
    obtain ⟨⟨start, end_, includeTx⟩, hd, h⟩ := bind_eq_ok.mp h
    dsimp only at h
    split at h
    · cases h
    next hdep =>
      obtain ⟨v, hv, rfl⟩ := getImmutable_eq_some h
      exact .entry (Slotted.getBlockRange hm hd hdep).slot hv
  case h_5 hm =>
    obtain ⟨n, hn, h⟩ := bind_eq_ok.mp h
    cases h
    exact .blockNumber hm hn
  case h_6 hm =>
    obtain ⟨n, hn, h⟩ := bind_eq_ok.mp h
    cases h
    exact .gasPrice hm hn
  case h_7 hm =>
    obtain ⟨⟨params, blockTag⟩, hd, h⟩ := bind_eq_ok.mp h
    dsimp only at h
    split at h
    next hc =>
      obtain ⟨v, hv, rfl⟩ := getImmutable_eq_some h
      exact .entry (Slotted.ethCall hm hd hc).slot hv
    · cases h

theorem putImmutable_eq_some {v : Json} {w : Write} (h : c.putImmutable key v = .ok (some w)) :
    w = .entry key v := by
  unfold RPCCache.putImmutable at h
  split at h
  · exact (Option.some.inj (Except.ok.inj h)).symm
  · cases h

inductive Put (c : RPCCache) (conf : ℕ) (req : RPCReq) (v : Json) : Write → Prop
  | static (h : handlers req.method = some .static) : Put c conf req v (.static req.method v)
  | entry {key : Text} {inputs : List Text} (h : slot req = some (key, inputs))
      (hconf : ∀ input ∈ inputs, confirmed c.getLatestBlockNum conf input = .ok true) :
      Put c conf req v (.entry key v)

theorem putRPC_eq_some {conf : ℕ} {v : Json} {w : Write} (h : c.putRPC conf req v = .ok (some w)) :
    Put c conf req v w := by
  unfold RPCCache.putRPC at h
  split at h
  case h_1 => cases h
  case h_2 hm =>
    split at h
    · cases h
      exact .static hm
    · cases h
  case h_3 hm =>
    obtain ⟨⟨input, includeTx⟩, hd, h⟩ := bind_eq_ok.mp h
    dsimp only at h
    split at h
    · cases h
    next hdep =>
      obtain ⟨ok, hok, h⟩ := bind_eq_ok.mp h
      cases ok with
      | false => cases h
      | true =>
        obtain rfl := putImmutable_eq_some h
        apply Put.entry (Slotted.getBlockByNumber hm hd hdep).slot
        intro input' hinput
        rwa [mem_singleton.mp hinput]
  case h_4 hm =>
    obtain ⟨⟨start, end_, includeTx⟩, hd, h⟩ := bind_eq_ok.mp h
    dsimp only at h
    split at h
    · cases h
    next hdep =>
      obtain ⟨curBlock, hcur, h⟩ := bind_eq_ok.mp h
      obtain ⟨okStart, hstart, h⟩ := bind_eq_ok.mp h
      cases okStart with
      | false => cases h
      | true =>
        obtain ⟨okEnd, hend, h⟩ := bind_eq_ok.mp h
        cases okEnd with
        | false => cases h
        | true =>
          obtain rfl := putImmutable_eq_some h
          apply Put.entry (Slotted.getBlockRange hm hd hdep).slot
          rw [hcur]
          intro input hinput
          rcases mem_pair.mp hinput with rfl | rfl
          · exact hstart
          · exact hend
  case h_5 => cases h
  case h_6 => cases h
  case h_7 hm =>
    obtain ⟨⟨params, blockTag⟩, hd, h⟩ := bind_eq_ok.mp h
    dsimp only at h
    split at h
    next hc =>
      obtain ⟨ok, hok, h⟩ := bind_eq_ok.mp h
      cases ok with
      | false => cases h
      | true =>
        obtain rfl := putImmutable_eq_some h
        apply Put.entry (Slotted.ethCall hm hd hc).slot
        intro input' hinput
        rwa [mem_singleton.mp hinput]
    · cases h

/-! ### What keys determine -/

theorem digit?_colon : Hex.digit? ':' = none := by decide

theorem colon_notMem_of_parseFrom {cs : Text} {n m : ℕ} (h : Hex.parseFrom n cs = some m) :
    ':' ∉ cs := by
  induction cs generalizing n with
  | nil => exact not_mem_nil
  | cons c cs ih =>
    rw [Hex.parseFrom] at h
    split at h
    next d hd =>
      rw [mem_cons, not_or]
      refine ⟨?_, ih h⟩
      rintro rfl
      rw [digit?_colon] at hd
      cases hd
    · cases h

variable {input : Text}

theorem colon_notMem_of_decode {n : BitVec 64} (h : decodeBlockInput input = .ok n) :
    ':' ∉ input := by
  unfold decodeBlockInput at h
  split at h
  next x d digits =>
    split at h
    · cases h
    next hx =>
      split at h
      · cases h
      · split at h
        next m hm =>
          have hdigits := colon_notMem_of_parseFrom hm
          have hx' : ':' ≠ x := by
            rintro rfl
            exact hx (by decide)
          rw [mem_cons, mem_cons]
          rintro (h0 | h1 | h2)
          · exact absurd h0 (by decide)
          · exact hx' h1
          · exact hdigits h2
        · cases h
  · cases h

theorem colon_notMem_earliest : ':' ∉ earliest := by decide

theorem colon_notMem_of_blockOf {b : ℕ} (h : blockOf input = some b) : ':' ∉ input := by
  unfold blockOf at h
  split at h
  next he =>
    rw [he]
    exact colon_notMem_earliest
  · split at h
    next n hn => exact colon_notMem_of_decode hn
    · cases h

theorem exists_blockOf (hv : validBlockInput input = true)
    (hdep : ¬ isBlockDependentParam input = true) : ∃ b, blockOf input = some b := by
  unfold blockOf
  simp only [validBlockInput, isBlockDependentParam, decide_eq_true_eq, not_or] at hv hdep
  by_cases he : input = earliest
  · exact ⟨0, if_pos he⟩
  · rw [if_neg he]
    rcases hv with h | h | h | h
    · exact absurd h he
    · exact absurd h hdep.2
    · exact absurd h hdep.1
    · cases hd : decodeBlockInput input with
      | ok n => exact ⟨n.toNat, rfl⟩
      | error =>
        rw [hd] at h
        cases h

variable {params : Option Json}

theorem unmarshalList_eq_ok {list : List Json} (h : unmarshalList params = .ok list)
    (hne : list ≠ []) : params = some (.arr list) := by
  unfold unmarshalList at h
  split at h
  · rw [Except.ok.inj h]
  · exact absurd (Except.ok.inj h).symm hne
  · cases h

variable {includeTx : Bool}

theorem decodeGetBlockByNumberParams_eq_ok
    (h : decodeGetBlockByNumberParams params = .ok (input, includeTx)) :
    params = some (.arr [.str input, .bool includeTx]) ∧ validBlockInput input = true := by
  obtain ⟨list, hlist, h⟩ := bind_eq_ok.mp h
  split at h
  · split at h
    next hv =>
      cases h
      exact ⟨unmarshalList_eq_ok hlist (cons_ne_nil _ _), hv⟩
    · cases h
  · cases h

theorem decodeGetBlockRangeParams_eq_ok {start end_ : Text}
    (h : decodeGetBlockRangeParams params = .ok (start, end_, includeTx)) :
    params = some (.arr [.str start, .str end_, .bool includeTx]) ∧
      validBlockInput start = true ∧ validBlockInput end_ = true := by
  obtain ⟨list, hlist, h⟩ := bind_eq_ok.mp h
  split at h
  · split at h
    next hv =>
      cases h
      exact ⟨unmarshalList_eq_ok hlist (cons_ne_nil _ _), hv⟩
    · cases h
  · cases h

structure PlainMember (member : Text × Json) : Prop where
  name : member.1 = "to".toList ∨ member.1 = "data".toList ∨ member.1 = "value".toList
  text : ∃ s, member.2 = .str s ∧ s ≠ [] ∧ ':' ∉ s

def PlainCall (params : Option Json) : Prop :=
  ∃ members tag, params = some (.arr [.obj members, .str tag]) ∧ ∀ m ∈ members, PlainMember m

structure PlainParams (params : EthCallParams) : Prop where
  to_ : ':' ∉ params.to_
  data : ':' ∉ params.data
  gasPrice : params.gasPrice = []

variable {params' params : EthCallParams}

theorem plainParams_unmarshal {members : List (Text × Json)}
    (h : params.unmarshal members = .ok params') (hplain : ∀ m ∈ members, PlainMember m)
    (hp : PlainParams params) : PlainParams params' := by
  induction members generalizing params with
  | nil =>
    cases h
    exact hp
  | cons m members ih =>
    obtain ⟨name, v⟩ := m
    obtain ⟨hname, s, hs, hne, hcolon⟩ := hplain _ mem_cons_self
    have hrest := fun m hm => hplain m (mem_cons_of_mem _ hm)
    dsimp only at hname hs
    subst hs
    rcases hname with rfl | rfl | rfl
    · exact ih h hrest ⟨hcolon, hp.data, hp.gasPrice⟩
    · exact ih h hrest ⟨hp.to_, hcolon, hp.gasPrice⟩
    · exact ih h hrest ⟨hp.to_, hp.data, hp.gasPrice⟩

theorem PlainCall.decode {call : Option Json} {blockTag : Text} (hplain : PlainCall call)
    (h : decodeEthCallParams call = .ok (params, blockTag)) : PlainParams params := by
  obtain ⟨members, tag, rfl, hmembers⟩ := hplain
  obtain ⟨list, hlist, h⟩ := bind_eq_ok.mp h
  cases hlist
  obtain ⟨params', hparams, h⟩ := bind_eq_ok.mp h
  cases h
  exact plainParams_unmarshal hparams hmembers ⟨not_mem_nil, not_mem_nil, rfl⟩

def methodWord : Text := "method".toList

def methodKey (name rest : Text) : Text := methodWord ++ ':' :: (name ++ ':' :: rest)

theorem append_eq_methodKey {word name : Text} (rest : Text)
    (h : word = methodWord ++ ':' :: (name ++ [':'])) : word ++ rest = methodKey name rest := by
  rw [h, methodKey, append_assoc, cons_append, append_assoc, singleton_append]

theorem getBlockByNumberKey_eq (input : Text) (includeTx : Bool) :
    getBlockByNumberKey input includeTx =
      methodKey "eth_getBlockByNumber".toList (input ++ ':' :: formatBool includeTx) :=
  (append_assoc _ _ _).trans (append_eq_methodKey _ (by decide +kernel))

theorem getBlockRangeKey_eq (start end_ : Text) (includeTx : Bool) :
    getBlockRangeKey start end_ includeTx =
      methodKey "eth_getBlockRange".toList
        (start ++ ':' :: (end_ ++ ':' :: formatBool includeTx)) :=
  ((append_assoc _ _ _).trans (append_assoc _ _ _)).trans
    (append_eq_methodKey _ (by decide +kernel))

theorem ethCallKey_eq (params : EthCallParams) (blockTag : Text) :
    ethCallKey params blockTag =
      methodKey "eth_call".toList (params.to_ ++ ':' :: (params.data ++ ':' :: blockTag)) :=
  ((append_assoc _ _ _).trans (append_assoc _ _ _)).trans
    (append_eq_methodKey _ (by decide +kernel))

theorem separator_inj {a a' b b' : Text} (h : a ++ ':' :: b = a' ++ ':' :: b')
    (ha : ':' ∉ a) (ha' : ':' ∉ a') : a = a' ∧ b = b' := by
  induction a generalizing a' with
  | nil =>
    cases a' with
    | nil => exact ⟨rfl, (cons.inj h).2⟩
    | cons =>
      obtain ⟨rfl, -⟩ := cons.inj h
      exact absurd mem_cons_self ha'
  | cons c cs ih =>
    cases a' with
    | nil =>
      obtain ⟨rfl, -⟩ := cons.inj h
      exact absurd mem_cons_self ha
    | cons =>
      obtain ⟨rfl, ht⟩ := cons.inj h
      obtain ⟨rfl, hb⟩ := ih ht (fun hm => ha (mem_cons_of_mem _ hm))
        (fun hm => ha' (mem_cons_of_mem _ hm))
      exact ⟨rfl, hb⟩

theorem methodKey_inj {name name' rest rest' : Text}
    (h : methodKey name rest = methodKey name' rest') (hn : ':' ∉ name) (hn' : ':' ∉ name') :
    name = name' ∧ rest = rest' :=
  separator_inj (separator_inj h (by decide) (by decide)).2 hn hn'

theorem formatBool_inj {b b' : Bool} (h : formatBool b = formatBool b') : b = b' := by
  revert b b'
  decide

theorem colon_notMem_of_valid (hv : validBlockInput input = true)
    (hdep : ¬ isBlockDependentParam input = true) : ':' ∉ input := by
  obtain ⟨b, hb⟩ := exists_blockOf hv hdep
  exact colon_notMem_of_blockOf hb

variable {includeTx' : Bool}

theorem getBlockByNumberKey_inj {input input' : Text} (hv : validBlockInput input = true)
    (hdep : ¬ isBlockDependentParam input = true) (hv' : validBlockInput input' = true)
    (hdep' : ¬ isBlockDependentParam input' = true)
    (h : getBlockByNumberKey input includeTx = getBlockByNumberKey input' includeTx') :
    input = input' ∧ includeTx = includeTx' := by
  rw [getBlockByNumberKey_eq, getBlockByNumberKey_eq] at h
  have hrest := (methodKey_inj h (by decide) (by decide)).2
  obtain ⟨hinput, htx⟩ := separator_inj hrest (colon_notMem_of_valid hv hdep)
    (colon_notMem_of_valid hv' hdep')
  exact ⟨hinput, formatBool_inj htx⟩

theorem getBlockRangeKey_inj {start start' end_ end' : Text}
    (hv : validBlockInput start = true ∧ validBlockInput end_ = true)
    (hdep : ¬ (isBlockDependentParam start = true ∨ isBlockDependentParam end_ = true))
    (hv' : validBlockInput start' = true ∧ validBlockInput end' = true)
    (hdep' : ¬ (isBlockDependentParam start' = true ∨ isBlockDependentParam end' = true))
    (h : getBlockRangeKey start end_ includeTx = getBlockRangeKey start' end' includeTx') :
    start = start' ∧ end_ = end' ∧ includeTx = includeTx' := by
  rw [not_or] at hdep hdep'
  rw [getBlockRangeKey_eq, getBlockRangeKey_eq] at h
  have hrest := (methodKey_inj h (by decide) (by decide)).2
  obtain ⟨hstart, hrest⟩ := separator_inj hrest (colon_notMem_of_valid hv.1 hdep.1)
    (colon_notMem_of_valid hv'.1 hdep'.1)
  obtain ⟨hend, htx⟩ := separator_inj hrest (colon_notMem_of_valid hv.2 hdep.2)
    (colon_notMem_of_valid hv'.2 hdep'.2)
  exact ⟨hstart, hend, formatBool_inj htx⟩

theorem ethCallKey_inj {blockTag blockTag' : Text} (hp : PlainParams params)
    (hp' : PlainParams params') (h : ethCallKey params blockTag = ethCallKey params' blockTag') :
    params.to_ = params'.to_ ∧ params.data = params'.data ∧ blockTag = blockTag' := by
  rw [ethCallKey_eq, ethCallKey_eq] at h
  have hrest := (methodKey_inj h (by decide) (by decide)).2
  obtain ⟨hto, hrest⟩ := separator_inj hrest hp.to_ hp'.to_
  obtain ⟨hdata, htag⟩ := separator_inj hrest hp.data hp'.data
  exact ⟨hto, hdata, htag⟩

end Proxyd
