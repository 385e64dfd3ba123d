import TokamakTitan.Library.Along
import TokamakTitan.Proxyd.Slots

/-! The response cache against a backend that answers from a chain. Blocks with enough confirmations
stay on the chain. -/
namespace Proxyd
open Function

structure Chain (B : Type) where
  genesis : B
  rest : List B
  deriving DecidableEq

variable {B : Type}

section Chains

variable (c : Chain B)

def Chain.blocks : List B := c.genesis :: c.rest

def Chain.height : ℕ := c.rest.length

def Chain.upTo (b : ℕ) : List B := c.blocks.take (b + 1)

theorem upTo_eq_of_take {c c' : Chain B} {n b : ℕ} (h : c.blocks.take n = c'.blocks.take n)
    (hb : b < n) : c.upTo b = c'.upTo b := by
  have ht := congrArg (List.take (b + 1)) h
  rwa [List.take_take, List.take_take, Nat.min_eq_left hb] at ht

/-- How many blocks of a chain no reorganization replaces: the first one, and those with the
confirmations. -/
def Chain.settled (conf : ℕ) : ℕ := max 1 (c.height + 1 - conf)

def Agree (inputs : List Text) (c c' : Chain B) : Prop :=
  ∀ input ∈ inputs, ∃ b, blockOf input = some b ∧ c.upTo b = c'.upTo b

end Chains

def NoParams : Option Json → Prop
  | none => True
  | some .null => True
  | some (.arr []) => True
  | _ => False

structure Backend (B : Type) where
  respond : String → Option Json → Chain B → Except RPCErr Json
  gasPrice : Chain B → ℕ

/-- The identity of a chain does not depend on its blocks; a request that names blocks is answered
from the chain up to them; a plain call is given by its recipient and its data. -/
structure Backend.Lawful {B : Type} (backend : Backend B) : Prop where
  static : ∀ m p p' c c', handlers m = some .static → NoParams p → NoParams p' →
    backend.respond m p c = backend.respond m p' c'
  blockNumber : ∀ m p c, handlers m = some .blockNumber → NoParams p →
    backend.respond m p c = .ok (encodeUint64 c.height)
  gasPrice : ∀ m p c, handlers m = some .gasPrice → NoParams p →
    backend.respond m p c = .ok (encodeUint64 (backend.gasPrice c))
  blocks : ∀ req key inputs c c', slot req = some (key, inputs) → Agree inputs c c' →
    backend.respond req.method req.params c = backend.respond req.method req.params c'
  calls : ∀ m p p' params params' blockTag c, handlers m = some .ethCall →
    PlainCall p → PlainCall p' →
    decodeEthCallParams p = .ok (params, blockTag) →
    decodeEthCallParams p' = .ok (params', blockTag) →
    ethCallCacheable params blockTag = true → ethCallCacheable params' blockTag = true →
    params.to_ = params'.to_ → params.data = params'.data →
    backend.respond m p c = backend.respond m p' c

structure Plain (req : RPCReq) : Prop where
  noParams : handlers req.method = some .static ∨ handlers req.method = some .blockNumber ∨
    handlers req.method = some .gasPrice → NoParams req.params
  call : handlers req.method = some .ethCall → slot req ≠ none → PlainCall req.params

variable {key : Text}

section Keys

variable {backend : Backend B} {req req' : RPCReq} {inputs inputs' : List Text}

def Handler.name : Handler → String
  | .static => ""
  | .getBlockByNumber => "eth_getBlockByNumber"
  | .getBlockRange => "eth_getBlockRange"
  | .blockNumber => "eth_blockNumber"
  | .gasPrice => "eth_gasPrice"
  | .ethCall => "eth_call"

theorem eq_name_of_handlers {m : String} {h : Handler} (hm : handlers m = some h)
    (hs : h ≠ .static) : m = h.name := by
  unfold handlers at hm
  split_ifs at hm with h1 h2 h3 h4 h5 h6
  · cases hm
    exact absurd rfl hs
  all_goals
    cases hm
    assumption

theorem key_eq_methodKey (h : slot req = some (key, inputs)) :
    ∃ rest, key = methodKey req.method.toList rest ∧ ':' ∉ req.method.toList := by
  cases slotted_of_slot h with
  | getBlockByNumber hm =>
    rw [eq_name_of_handlers hm (by decide)]
    exact ⟨_, getBlockByNumberKey_eq _ _, by decide⟩
  | getBlockRange hm =>
    rw [eq_name_of_handlers hm (by decide)]
    exact ⟨_, getBlockRangeKey_eq _ _ _, by decide⟩
  | ethCall hm =>
    rw [eq_name_of_handlers hm (by decide)]
    exact ⟨_, ethCallKey_eq _ _, by decide⟩

theorem method_eq_of_slot (h : slot req = some (key, inputs))
    (h' : slot req' = some (key, inputs')) : req.method = req'.method := by
  obtain ⟨rest, hk, hn⟩ := key_eq_methodKey h
  obtain ⟨rest', hk', hn'⟩ := key_eq_methodKey h'
  exact String.toList_inj.mp (methodKey_inj (hk.symm.trans hk') hn hn').1

theorem respond_eq_of_slot (hl : backend.Lawful) (hp : Plain req) (hp' : Plain req')
    (h : slot req = some (key, inputs)) (h' : slot req' = some (key, inputs')) :
    inputs = inputs' ∧ ∀ c, backend.respond req.method req.params c =
      backend.respond req'.method req'.params c := by
  have hmethod := method_eq_of_slot h h'
  have hs := slotted_of_slot h
  have hs' := slotted_of_slot h'
  generalize hk : key = key' at hs'
  -- Requests of one method have one handler, so only equal constructors meet.
  cases hs with
  | @getBlockByNumber input includeTx hm hd hdep =>
    cases hs' with
    | @getBlockByNumber input' includeTx' hm' hd' hdep' =>
      obtain ⟨hparams, hv⟩ := decodeGetBlockByNumberParams_eq_ok hd
      obtain ⟨hparams', hv'⟩ := decodeGetBlockByNumberParams_eq_ok hd'
      obtain ⟨rfl, rfl⟩ := getBlockByNumberKey_inj hv hdep hv' hdep' hk
      refine ⟨rfl, fun c => ?_⟩
      rw [hparams, hparams', hmethod]
    | getBlockRange hm' => exact absurd (hm.symm.trans (hmethod ▸ hm')) (by decide)
    | ethCall hm' => exact absurd (hm.symm.trans (hmethod ▸ hm')) (by decide)
  | @getBlockRange start end_ includeTx hm hd hdep =>
    cases hs' with
    | getBlockByNumber hm' => exact absurd (hm.symm.trans (hmethod ▸ hm')) (by decide)
    | @getBlockRange start' end' includeTx' hm' hd' hdep' =>
      obtain ⟨hparams, hv⟩ := decodeGetBlockRangeParams_eq_ok hd
      obtain ⟨hparams', hv'⟩ := decodeGetBlockRangeParams_eq_ok hd'
      obtain ⟨rfl, rfl, rfl⟩ := getBlockRangeKey_inj hv hdep hv' hdep' hk
      refine ⟨rfl, fun c => ?_⟩
      rw [hparams, hparams', hmethod]
    | ethCall hm' => exact absurd (hm.symm.trans (hmethod ▸ hm')) (by decide)
  | @ethCall params blockTag hm hd hc =>
    cases hs' with
    | getBlockByNumber hm' => exact absurd (hm.symm.trans (hmethod ▸ hm')) (by decide)
    | getBlockRange hm' => exact absurd (hm.symm.trans (hmethod ▸ hm')) (by decide)
    | @ethCall params' blockTag' hm' hd' hc' =>
      have hplain := hp.call hm (h ▸ Option.some_ne_none _)
      have hplain' := hp'.call hm' (h' ▸ Option.some_ne_none _)
      obtain ⟨hto, hdata, rfl⟩ := ethCallKey_inj (hplain.decode hd) (hplain'.decode hd') hk
      refine ⟨rfl, fun c => ?_⟩
      rw [hmethod]
      exact hl.calls _ _ _ _ _ _ c hm' hplain hplain' hd hd' hc hc' hto hdata

end Keys

/-- The chain, the chain when the block number was last polled, how many blocks ever had the
confirmations, and the cache. -/
structure CacheState (B : Type) where
  chain : Chain B
  known : Chain B
  settled : ℕ
  cache : RPCCache

/-- A response is stored some time after a backend gave it, from the chain of that time. -/
inductive CacheEvent (B : Type) where
  | advance (chain : Chain B)
  | pollBlockNum
  | pollGasPrice
  | evict (key : Text)
  | reach (up : Bool)
  | request (req : RPCReq)
  | fill (req : RPCReq) (asOf : Chain B)

section History

variable (backend : Backend B) (conf : ℕ)

def CacheState.start (chain : Chain B) : CacheState B := {
  chain, known := chain, settled := chain.settled conf, cache := emptyCache }

variable (s : CacheState B)

def CacheState.answer (req : RPCReq) : Option RPCRes :=
  match s.cache.getRPC req with
  | .ok res => res
  | .error _ => none

/-- What a response changes. Errors and results that are `null` are not put. -/
def CacheState.stores (req : RPCReq) (asOf : Chain B) : Option Write :=
  match backend.respond req.method req.params asOf with
  | .error _ => none
  | .ok v =>
    if v.isNull then none
    else
      match s.cache.putRPC conf req v with
      | .ok w => w
      | .error _ => none

def RPCCache.evict (c : RPCCache) (key : Text) : RPCCache := { c with
  entries := Function.update c.entries key none
  latestBlockNum := if key = "lvc:block_number".toList then none else c.latestBlockNum
  latestGasPrice := if key = "lvc:gas_price".toList then none else c.latestGasPrice }

def CacheState.step : CacheEvent B → CacheState B
  | .advance chain => { s with chain, settled := max s.settled (chain.settled conf) }
  | .pollBlockNum =>
    if s.cache.up then
      { s with known := s.chain, cache.latestBlockNum := some s.chain.height }
    else s
  | .pollGasPrice =>
    if s.cache.up then { s with cache.latestGasPrice := some (backend.gasPrice s.chain) } else s
  | .evict key => { s with cache := s.cache.evict key }
  | .reach up => { s with cache.up := up }
  | .request _ => s
  | .fill req asOf =>
    match s.stores backend conf req asOf with
    | some w => { s with cache := s.cache.write w }
    | none => s

def CacheState.Keeps : CacheEvent B → Prop
  | .advance chain => chain.blocks.take s.settled = s.chain.blocks.take s.settled
  | _ => True

/-- Requests are plain, the gas price was polled on the chain of the block number, sums with the
confirmations fit in 64 bits, and what is stored was answered from blocks that are still there. -/
def CacheState.Covered : CacheEvent B → Prop
  | .request req => Plain req ∧
    (handlers req.method = some .gasPrice → ∀ price, s.cache.latestGasPrice = some price →
      price = backend.gasPrice s.known)
  | .fill req asOf => Plain req ∧ ∀ key inputs, slot req = some (key, inputs) →
    ∀ input ∈ inputs, ∀ b, blockOf input = some b →
      b + conf < 2 ^ 64 ∧ asOf.upTo b = s.chain.upTo b
  | _ => True

/-- A cached response has the result that a backend gives at the latest known block; if it was
stored, also the one on the present chain. A response that names a block by its number is stored
with the confirmations at the latest known block. -/
def CacheState.Transparent : CacheEvent B → Prop
  | .request req => ∀ res, s.answer req = some res → res.error = none ∧
    backend.respond req.method req.params s.known = .ok res.result ∧
    (handlers req.method ≠ some .blockNumber → handlers req.method ≠ some .gasPrice →
      backend.respond req.method req.params s.chain = .ok res.result)
  | .fill req asOf => ∀ key inputs v, slot req = some (key, inputs) →
    s.stores backend conf req asOf = some (.entry key v) →
    ∀ input ∈ inputs, ∀ n, decodeBlockInput input = .ok n →
      ∃ height, s.cache.latestBlockNum = some height ∧ n.toNat + conf ≤ height
  | _ => True

variable {backend conf}

/-- The entry is the backend's answer to a request that names settled blocks only. -/
structure Stored (backend : Backend B) (s : CacheState B) (key : Text) (v : Json)
    (req : RPCReq) (inputs : List Text) : Prop where
  slot : slot req = some (key, inputs)
  plain : Plain req
  respond : backend.respond req.method req.params s.chain = .ok v
  blocks : ∀ input ∈ inputs, ∃ b, blockOf input = some b ∧ b < s.settled ∧
    s.known.upTo b = s.chain.upTo b

/-- Settled blocks are never replaced, and entries are what the backend answers now. -/
structure Coherent (backend : Backend B) (conf : ℕ) (s : CacheState B) : Prop where
  chain : s.chain.settled conf ≤ s.settled
  known : s.known.settled conf ≤ s.settled
  agree : ∀ b < s.known.settled conf, s.known.upTo b = s.chain.upTo b
  blockNum : ∀ n, s.cache.latestBlockNum = some n → n = s.known.height
  entries : ∀ key v, s.cache.entries key = some v → ∃ req inputs, Stored backend s key v req inputs
  static : ∀ m, handlers m = some .static → (s.cache.static m).isNull = false →
    ∃ p, NoParams p ∧ backend.respond m p s.chain = .ok (s.cache.static m)

theorem coherent_start (chain : Chain B) : Coherent backend conf (.start conf chain) where
  chain := le_rfl
  known := le_rfl
  agree := fun _ _ => rfl
  blockNum := by
    intro n h
    cases h
  entries := by
    intro key v h
    cases h
  static := by
    intro m hm h
    cases h

variable {n : BitVec 64}

theorem readUint64_eq_ok {key : String} {up : Bool} {last : Option ℕ}
    (h : readUint64 key up last = .ok n) : last = some n.toNat := by
  unfold readUint64 at h
  split at h
  · split at h
    · cases h
    · split at h
      next hlt =>
        cases h
        rw [BitVec.toNat_ofNat, Nat.mod_eq_of_lt hlt]
      · cases h
  · split at h <;> cases h

variable {input : Text}

theorem confirmed_eq_true {latest : Except CacheError (BitVec 64)}
    (h : confirmed latest conf input = .ok true) :
    input = earliest ∨ ∃ curBlock blockNum, latest = .ok curBlock ∧
      decodeBlockInput input = .ok blockNum ∧ ¬ curBlock ≤ blockNum + BitVec.ofNat 64 conf := by
  unfold confirmed at h
  split at h
  next he => exact .inl he
  · obtain ⟨curBlock, hcur, h⟩ := Checked.bind_eq_ok.mp h
    obtain ⟨blockNum, hnum, h⟩ := Checked.bind_eq_ok.mp h
    have hlt := Except.ok.inj h
    rw [Bool.not_eq_true', decide_eq_false_iff_not] at hlt
    exact .inr ⟨curBlock, blockNum, hcur, hnum, hlt⟩

theorem ne_earliest_of_decode (h : decodeBlockInput input = .ok n) : input ≠ earliest := by
  rintro rfl
  cases h

theorem blockOf_of_decode (h : decodeBlockInput input = .ok n) : blockOf input = some n.toNat := by
  simp only [blockOf, if_neg (ne_earliest_of_decode h), h]

variable {s : CacheState B}

theorem height_of_confirmed (h : confirmed s.cache.getLatestBlockNum conf input = .ok true)
    (hn : decodeBlockInput input = .ok n) (hfit : n.toNat + conf < 2 ^ 64) :
    ∃ height, s.cache.latestBlockNum = some height ∧ n.toNat + conf < height := by
  rcases confirmed_eq_true h with rfl | ⟨curBlock, blockNum, hcur, hnum, hlt⟩
  · exact absurd rfl (ne_earliest_of_decode hn)
  · cases hn.symm.trans hnum
    refine ⟨_, readUint64_eq_ok hcur, ?_⟩
    have hsum : (n + BitVec.ofNat 64 conf).toNat = n.toNat + conf := by
      rw [BitVec.toNat_add, BitVec.toNat_ofNat, Nat.add_mod_mod, Nat.mod_eq_of_lt hfit]
    rw [BitVec.le_def, hsum] at hlt
    omega

theorem settled_of_confirmed (hs : Coherent backend conf s)
    (h : confirmed s.cache.getLatestBlockNum conf input = .ok true)
    (hfit : ∀ b, blockOf input = some b → b + conf < 2 ^ 64) :
    ∃ b, blockOf input = some b ∧ b < s.known.settled conf := by
  unfold Chain.settled
  rcases confirmed_eq_true h with rfl | ⟨_, n, _, hn, _⟩
  · exact ⟨0, rfl, by omega⟩
  · have hb := blockOf_of_decode hn
    obtain ⟨height, hheight, hlt⟩ := height_of_confirmed h hn (hfit _ hb)
    have hknown := hs.blockNum _ hheight
    exact ⟨_, hb, by omega⟩

variable {req : RPCReq} {v : Json}

theorem Stored.of_eq {s' : CacheState B} {inputs : List Text}
    (h : Stored backend s key v req inputs) (hchain : s'.chain = s.chain)
    (hknown : s'.known = s.known) (hsettled : s'.settled = s.settled) :
    Stored backend s' key v req inputs where
  slot := h.slot
  plain := h.plain
  respond := by rw [hchain, h.respond]
  blocks := by
    rw [hchain, hknown, hsettled]
    exact h.blocks

variable {chain : Chain B}

theorem Stored.advance (hl : backend.Lawful) {inputs : List Text}
    (h : Stored backend s key v req inputs)
    (hkeeps : chain.blocks.take s.settled = s.chain.blocks.take s.settled) :
    Stored backend (s.step backend conf (.advance chain)) key v req inputs where
  slot := h.slot
  plain := h.plain
  respond := by
    rw [← h.respond]
    apply hl.blocks req key inputs _ _ h.slot
    intro input hinput
    obtain ⟨b, hb, hlt, -⟩ := h.blocks input hinput
    exact ⟨b, hb, upTo_eq_of_take hkeeps hlt⟩
  blocks := by
    intro input hinput
    obtain ⟨b, hb, hlt, hknown⟩ := h.blocks input hinput
    have hchain := upTo_eq_of_take hkeeps hlt
    exact ⟨b, hb, lt_max_of_lt_left hlt, hknown.trans hchain.symm⟩

theorem Coherent.advance (hl : backend.Lawful) (hs : Coherent backend conf s)
    (hkeeps : chain.blocks.take s.settled = s.chain.blocks.take s.settled) :
    Coherent backend conf (s.step backend conf (.advance chain)) where
  chain := le_max_right _ _
  known := le_max_of_le_left hs.known
  agree := by
    intro b hb
    have hchain := upTo_eq_of_take hkeeps (hb.trans_le hs.known)
    exact (hs.agree b hb).trans hchain.symm
  blockNum := hs.blockNum
  entries := by
    intro key v h
    obtain ⟨req, inputs, hstored⟩ := hs.entries key v h
    exact ⟨req, inputs, hstored.advance hl hkeeps⟩
  static := by
    intro m hm h
    obtain ⟨p, hp, hrespond⟩ := hs.static m hm h
    exact ⟨p, hp, (hl.static m p p _ _ hm hp hp).trans hrespond⟩

section

variable (hs : Coherent backend conf s)
include hs

theorem Coherent.pollBlockNum : Coherent backend conf (s.step backend conf .pollBlockNum) := by
  simp only [CacheState.step]
  split
  · constructor
    case chain => exact hs.chain
    case known => exact hs.chain
    case agree => exact fun _ _ => rfl
    case blockNum =>
      intro n h
      exact (Option.some.inj h).symm
    case entries =>
      intro key v h
      obtain ⟨req, inputs, hstored⟩ := hs.entries key v h
      refine ⟨req, inputs, hstored.slot, hstored.plain, hstored.respond, ?_⟩
      intro input hinput
      obtain ⟨b, hb, hlt, -⟩ := hstored.blocks input hinput
      exact ⟨b, hb, hlt, rfl⟩
    case static => exact hs.static
  · exact hs

theorem Coherent.of_cache {cache : RPCCache}
    (hblock : ∀ n, cache.latestBlockNum = some n → s.cache.latestBlockNum = some n)
    (hentries : ∀ key v, cache.entries key = some v → s.cache.entries key = some v)
    (hstatic : cache.static = s.cache.static) :
    Coherent backend conf { s with cache } where
  chain := hs.chain
  known := hs.known
  agree := hs.agree
  blockNum := fun n h => hs.blockNum n (hblock n h)
  entries := by
    intro key v h
    obtain ⟨req, inputs, hstored⟩ := hs.entries key v (hentries key v h)
    exact ⟨req, inputs, hstored.of_eq rfl rfl rfl⟩
  static := by
    rw [hstatic]
    exact hs.static

theorem Coherent.evict (key : Text) : Coherent backend conf (s.step backend conf (.evict key)) := by
  apply hs.of_cache
  · intro n h
    dsimp only [RPCCache.evict] at h
    split at h
    · cases h
    · exact h
  · intro key' v h
    dsimp only [RPCCache.evict] at h
    by_cases hk : key' = key
    · rw [hk, update_self] at h
      cases h
    · rwa [update_of_ne hk] at h
  · rfl

theorem Coherent.pollGasPrice : Coherent backend conf (s.step backend conf .pollGasPrice) := by
  simp only [CacheState.step]
  split
  · exact hs.of_cache (fun _ h => h) (fun _ _ h => h) rfl
  · exact hs

variable {asOf : Chain B}

omit hs in
theorem put_of_stores {w : Write} (h : s.stores backend conf req asOf = some w) :
    ∃ v, backend.respond req.method req.params asOf = .ok v ∧ v.isNull = false ∧
      Put s.cache conf req v w := by
  unfold CacheState.stores at h
  split at h
  · cases h
  next v hv =>
    split at h
    · cases h
    next hnull =>
      split at h
      next w' hput =>
        subst h
        exact ⟨v, hv, Bool.eq_false_iff.mpr hnull, putRPC_eq_some hput⟩
      · cases h

theorem Coherent.write_entry {inputs : List Text} (hstored : Stored backend s key v req inputs) :
    Coherent backend conf { s with cache := s.cache.write (.entry key v) } where
  chain := hs.chain
  known := hs.known
  agree := hs.agree
  blockNum := hs.blockNum
  entries := by
    intro key' v' h
    dsimp only [RPCCache.write] at h
    by_cases hk : key' = key
    · subst hk
      rw [update_self] at h
      cases h
      exact ⟨req, inputs, hstored.of_eq rfl rfl rfl⟩
    · rw [update_of_ne hk] at h
      obtain ⟨req', inputs', hstored'⟩ := hs.entries key' v' h
      exact ⟨req', inputs', hstored'.of_eq rfl rfl rfl⟩
  static := hs.static

theorem Coherent.write_static {m : String} {p : Option Json} (hp : NoParams p)
    (hv : backend.respond m p s.chain = .ok v) :
    Coherent backend conf { s with cache := s.cache.write (.static m v) } where
  chain := hs.chain
  known := hs.known
  agree := hs.agree
  blockNum := hs.blockNum
  entries := by
    intro key v h
    obtain ⟨req, inputs, hstored⟩ := hs.entries key v h
    exact ⟨req, inputs, hstored.of_eq rfl rfl rfl⟩
  static := by
    intro m' hm' h
    dsimp only [RPCCache.write] at h ⊢
    by_cases hm : m' = m
    · subst hm
      refine ⟨p, hp, ?_⟩
      rw [update_self]
      exact hv
    · rw [update_of_ne hm] at h ⊢
      exact hs.static m' hm' h

end

theorem Coherent.fill (hl : backend.Lawful) (hs : Coherent backend conf s)
    (hcov : s.Covered backend conf (.fill req asOf)) :
    Coherent backend conf (s.step backend conf (.fill req asOf)) := by
  obtain ⟨hplain, hblocks⟩ := hcov
  simp only [CacheState.step]
  split
  next w hw =>
    obtain ⟨v, hv, -, hput⟩ := put_of_stores hw
    cases hput with
    | static hm =>
      have hp := hplain.noParams (.inl hm)
      exact hs.write_static hp ((hl.static _ _ _ _ _ hm hp hp).trans hv)
    | @entry key inputs hslot hconf =>
      have hset : ∀ input ∈ inputs, ∃ b, blockOf input = some b ∧ b < s.known.settled conf := by
        intro input hinput
        exact settled_of_confirmed hs (hconf input hinput)
          fun b hb => (hblocks key inputs hslot input hinput b hb).1
      have hrespond : backend.respond req.method req.params s.chain = .ok v := by
        rw [← hv]
        apply hl.blocks req key inputs _ _ hslot
        intro input hinput
        obtain ⟨b, hb, -⟩ := hset input hinput
        exact ⟨b, hb, (hblocks key inputs hslot input hinput b hb).2.symm⟩
      have hstored : Stored backend s key v req inputs := by
        refine ⟨hslot, hplain, hrespond, fun input hinput => ?_⟩
        obtain ⟨b, hb, hlt⟩ := hset input hinput
        exact ⟨b, hb, hlt.trans_le hs.known, hs.agree b hlt⟩
      exact hs.write_entry hstored
  · exact hs

theorem coherent_step (hl : backend.Lawful) (hs : Coherent backend conf s) {e : CacheEvent B}
    (hkeeps : s.Keeps e) (hcov : s.Covered backend conf e) :
    Coherent backend conf (s.step backend conf e) := by
  cases e with
  | advance => exact hs.advance hl hkeeps
  | pollBlockNum => exact hs.pollBlockNum
  | pollGasPrice => exact hs.pollGasPrice
  | evict key => exact hs.evict key
  | reach up => exact hs.of_cache (fun _ h => h) (fun _ _ h => h) rfl
  | request => exact hs
  | fill => exact hs.fill hl hcov

theorem getRPC_of_answer {res : RPCRes} (h : s.answer req = some res) :
    s.cache.getRPC req = .ok (some res) := by
  unfold CacheState.answer at h
  split at h
  next hres =>
    rw [hres, h]
  · cases h

theorem transparent_request (hl : backend.Lawful) (hs : Coherent backend conf s)
    (hcov : s.Covered backend conf (.request req)) : s.Transparent backend conf (.request req) := by
  obtain ⟨hplain, hgas⟩ := hcov
  intro res hres
  cases getRPC_eq_some (getRPC_of_answer hres) with
  | static hm hv =>
    obtain ⟨p, hp, hrespond⟩ := hs.static _ hm hv
    have hp' := hplain.noParams (.inl hm)
    refine ⟨rfl, ?_, fun _ _ => ?_⟩
    · exact (hl.static _ _ _ _ _ hm hp' hp).trans hrespond
    · exact (hl.static _ _ _ _ _ hm hp' hp).trans hrespond
  | @blockNumber n hm hn =>
    have hp := hplain.noParams (.inr (.inl hm))
    refine ⟨rfl, ?_, fun hne => absurd hm hne⟩
    rw [hl.blockNumber _ _ _ hm hp, ← hs.blockNum _ (readUint64_eq_ok hn)]
    rfl
  | @gasPrice n hm hn =>
    have hp := hplain.noParams (.inr (.inr hm))
    refine ⟨rfl, ?_, fun _ hne => absurd hm hne⟩
    rw [hl.gasPrice _ _ _ hm hp, ← hgas hm _ (readUint64_eq_ok hn)]
    rfl
  | @entry key inputs v hslot hv =>
    obtain ⟨req', inputs', hstored⟩ := hs.entries key v hv
    obtain ⟨rfl, hsame⟩ := respond_eq_of_slot hl hplain hstored.plain hslot hstored.slot
    have hchain := (hsame s.chain).trans hstored.respond
    refine ⟨rfl, ?_, fun _ _ => hchain⟩
    have hagree : Agree inputs s.known s.chain := by
      intro input hinput
      obtain ⟨b, hb, -, hknown⟩ := hstored.blocks input hinput
      exact ⟨b, hb, hknown⟩
    exact (hl.blocks req key inputs _ _ hslot hagree).trans hchain

theorem transparent_fill (hcov : s.Covered backend conf (.fill req asOf)) :
    s.Transparent backend conf (.fill req asOf) := by
  intro key inputs v hslot hw input hinput n hn
  obtain ⟨v', -, -, hput⟩ := put_of_stores hw
  cases hput with
  | entry hslot' hconf =>
    cases hslot.symm.trans hslot'
    have hfit := (hcov.2 key inputs hslot input hinput _ (blockOf_of_decode hn)).1
    obtain ⟨height, hheight, hlt⟩ := height_of_confirmed (hconf input hinput) hn hfit
    exact ⟨height, hheight, hlt.le⟩

/-- In every history of a chain that keeps confirmed blocks, in which every step is covered, the
cache is transparent. -/
theorem cache_transparent (backend : Backend B) (hl : backend.Lawful) (conf : ℕ)
    (chain : Chain B) (events : List (CacheEvent B))
    (hkeeps : Runs.Along (CacheState.step backend conf) CacheState.Keeps (.start conf chain) events)
    (hcov : Runs.Along (CacheState.step backend conf) (CacheState.Covered backend conf)
      (.start conf chain) events) :
    Runs.Along (CacheState.step backend conf) (CacheState.Transparent backend conf)
      (.start conf chain) events := by
  apply Runs.along_of_invariant (Coherent backend conf) _ (coherent_start chain)
    (Runs.along_and hkeeps hcov)
  rintro s e hs ⟨hk, hc⟩
  refine ⟨?_, coherent_step hl hs hk hc⟩
  cases e with
  | request => exact transparent_request hl hs hc
  | fill => exact transparent_fill hc
  | advance => trivial
  | pollBlockNum => trivial
  | pollGasPrice => trivial
  | evict => trivial
  | reach => trivial

end History

def toyBackend : Backend ℕ where
  respond m p c :=
    match handlers m with
    | some .blockNumber => .ok (encodeUint64 c.height)
    | some .gasPrice => .ok (encodeUint64 0)
    | some .ethCall =>
      match decodeEthCallParams p with
      | .ok (params, _) => .ok (.str params.gasPrice)
      | .error _ => .error (errInvalidParams "invalid argument 0")
    | _ => .ok (.str "0x1".toList)
  gasPrice := fun _ => 0

theorem toyBackend_lawful : toyBackend.Lawful := by
  constructor
  case static =>
    intro m p p' c c' hm hp hp'
    simp only [toyBackend, hm]
  case blockNumber =>
    intro m p c hm hp
    simp only [toyBackend, hm]
  case gasPrice =>
    intro m p c hm hp
    simp only [toyBackend, hm]
  case blocks =>
    intro req key inputs c c' h hagree
    cases slotted_of_slot h with
    | getBlockByNumber hm => simp only [toyBackend, hm]
    | getBlockRange hm => simp only [toyBackend, hm]
    | ethCall hm => simp only [toyBackend, hm]
  case calls =>
    intro m p p' params params' blockTag c hm hp hp' hd hd' hc hc' hto hdata
    have hgas := (hp.decode hd).gasPrice
    have hgas' := (hp'.decode hd').gasPrice
    simp only [toyBackend, hm, hd, hd', hgas, hgas']

def toyChain : Chain ℕ := ⟨0, [1, 2, 3, 4, 5]⟩

def blockRequest (input : String) : RPCReq := {
  jsonrpc := jsonrpcVersion
  method := "eth_getBlockByNumber"
  params := some (.arr [.str input.toList, .bool false])
  id := [49] }

def callRequest (gasPrice : String) : RPCReq := {
  jsonrpc := jsonrpcVersion
  method := "eth_call"
  params := some (.arr [.obj [("to".toList, .str "0xa".toList),
    ("gasPrice".toList, .str gasPrice.toList)], .str "0x1".toList])
  id := [49] }

theorem plain_blockRequest (input : String) : Plain (blockRequest input) := by
  have hm : handlers (blockRequest input).method = some .getBlockByNumber := rfl
  constructor
  case noParams =>
    rw [hm]
    rintro (h | h | h) <;> cases h
  case call =>
    rw [hm]
    rintro ⟨⟩

theorem cache_transparent_sample :
    ((CacheState.step toyBackend 2 (CacheState.step toyBackend 2 (.start 2 toyChain)
      .pollBlockNum) (.fill (blockRequest "0x1") toyChain)).answer
        (blockRequest "0x1")).isSome = true ∧
    Runs.Along (CacheState.step toyBackend 2) (CacheState.Transparent toyBackend 2)
      (.start 2 toyChain) [.pollBlockNum, .fill (blockRequest "0x1") toyChain,
        .advance ⟨0, [1, 2, 3, 4, 6, 7]⟩, .request (blockRequest "0x1")] := by
  refine ⟨by decide, cache_transparent toyBackend toyBackend_lawful 2 toyChain _ ?_ ?_⟩
  · exact ⟨trivial, trivial, rfl, trivial, trivial⟩
  · refine ⟨trivial, ⟨plain_blockRequest _, ?_⟩, trivial, ⟨plain_blockRequest _, ?_⟩, trivial⟩
    · intro key inputs h input hinput b hb
      cases h
      rw [List.mem_singleton.mp hinput] at hb
      cases hb
      exact ⟨by decide, rfl⟩
    · intro h
      cases h

/-- Calls that differ in their gas price share a slot, and a sum of 64 bits may wrap. -/
theorem cached_responses_differ :
    toyBackend.Lawful ∧
    ¬ Runs.Along (CacheState.step toyBackend 2) (CacheState.Transparent toyBackend 2)
      (.start 2 toyChain) [.pollBlockNum, .fill (callRequest "0x1") toyChain,
        .request (callRequest "0x2")] ∧
    ¬ Runs.Along (CacheState.step toyBackend 2) (CacheState.Transparent toyBackend 2)
      (.start 2 toyChain) [.pollBlockNum, .fill (blockRequest "0xffffffffffffffff") toyChain] := by
  refine ⟨toyBackend_lawful, ?_, ?_⟩
  · rintro ⟨-, -, h, -⟩
    have hres := (h (cachedRes (callRequest "0x2") (.str "0x1".toList)) rfl).2.1
    cases hres
  · rintro ⟨-, h, -⟩
    obtain ⟨height, hheight, hle⟩ := h _ _ _ rfl rfl _ List.mem_cons_self
      (BitVec.ofNat 64 (2 ^ 64 - 1)) rfl
    cases hheight
    exact absurd hle (by decide)

end Proxyd
