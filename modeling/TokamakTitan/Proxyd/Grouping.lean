import TokamakTitan.Proxyd.Server

/-! What the first loop over a batch leaves: every admitted request in one group, and no ID twice in
a group. -/
namespace Proxyd
open Function List

inductive Local (cfg : ServerConfig) (env : Env) (i : ℕ) : Option RPCReq → RPCRes → Prop
  | parse : Local cfg env i none (newRPCErrorRes [] errParseErr)
  | validation {req : RPCReq} {err : RPCErr} (h : validateRPCReq req = some err) :
      Local cfg env i (some req) (newRPCErrorRes [] err)
  | accounts {req : RPCReq} (h : validateRPCReq req = none) (hm : req.method = "eth_accounts") :
      Local cfg env i (some req) (newRPCRes req.id (.arr []))
  | whitelist {req : RPCReq} (h : validateRPCReq req = none)
      (hm : cfg.rpcMethodMappings req.method = "") :
      Local cfg env i (some req) (newRPCErrorRes req.id errMethodNotWhitelisted)
  | limit {req : RPCReq} (h : validateRPCReq req = none)
      (hm : cfg.overrideLims req.method = true) (hl : env.limited i = true) :
      Local cfg env i (some req) (newRPCErrorRes req.id errOverRateLimit)
  | senderLimit {req : RPCReq} {err : RPCErr} (h : validateRPCReq req = none)
      (hm : req.method = "eth_sendRawTransaction") (hs : cfg.senderLim = true)
      (hl : rateLimitSender env i req = some err) :
      Local cfg env i (some req) (newRPCErrorRes req.id err)

variable {raw : Option RPCReq} {cfg : ServerConfig} {env : Env} {i : ℕ}

theorem local_of_precheck {res : RPCRes} (h : precheck cfg env i raw = .error res) :
    Local cfg env i raw res := by
  unfold precheck at h
  split at h
  · cases h
    exact .parse
  next req =>
    split at h
    next err hv =>
      cases h
      exact .validation hv
    next hv =>
      split_ifs at h with ha hw hl hs
      · cases h
        exact .accounts hv ha
      · cases h
        exact .whitelist hv hw
      · cases h
        exact .limit hv hl.1 hl.2
      · split at h
        next err herr =>
          cases h
          exact .senderLimit hv hs.1 hs.2 herr
        · cases h

structure Taken (cfg : ServerConfig) (env : Env) (done : List (Option RPCReq)) (t : Intake) :
    Prop where
  rejected : ∀ i raw res, done[i]? = some raw → precheck cfg env i raw = .error res →
    t.responses i = some res
  mem : ∀ g e, e ∈ t.batches g → ∃ raw, done[e.index]? = some raw ∧
    precheck cfg env e.index raw = .ok (e.req, g.backendGroup)
  admitted : ∀ i raw req group, done[i]? = some raw → precheck cfg env i raw = .ok (req, group) →
    ∃ g ∈ t.keys, ⟨req, i⟩ ∈ t.batches g
  indices : ∀ g, ((t.batches g).map BatchElem.index).Nodup
  separate : ∀ g g' e e', e ∈ t.batches g → e' ∈ t.batches g' → e.index = e'.index → g = g'
  numbered : ∀ g e, e ∈ t.batches g → g.groupID ≤ t.ids e.req.id
  distinct : ∀ g, ((t.batches g).map fun e => e.req.id).Nodup
  keys : t.keys.Nodup

variable {done : List (Option RPCReq)} {t : Intake}

theorem taken_empty : Taken cfg env [] .empty where
  rejected := by
    intro i raw res h
    cases h
  mem := by
    intro g e h
    cases h
  admitted := by
    intro i raw req group h
    cases h
  indices := fun _ => nodup_nil
  separate := by
    intro g g' e e' h
    cases h
  numbered := by
    intro g e h
    cases h
  distinct := fun _ => nodup_nil
  keys := nodup_nil

variable {g : BatchGroup} {e : BatchElem}

theorem Taken.index_lt (ht : Taken cfg env done t) (h : e ∈ t.batches g) :
    e.index < done.length := by
  obtain ⟨raw, hraw, -⟩ := ht.mem g e h
  exact (List.getElem?_eq_some_iff.mp hraw).1

theorem getElem?_concat_cases {α : Type} {xs : List α} {x y : α} (h : (xs ++ [x])[i]? = some y) :
    xs[i]? = some y ∨ i = xs.length ∧ y = x := by
  rcases Nat.lt_trichotomy i xs.length with hi | rfl | hi
  · rw [getElem?_append_left hi] at h
    exact .inl h
  · rw [getElem?_concat_length] at h
    exact .inr ⟨rfl, (Option.some.inj h).symm⟩
  · rw [List.getElem?_eq_none (by simp; omega)] at h
    cases h

theorem getElem?_concat_of_some {α : Type} {xs : List α} {x y : α} (h : xs[i]? = some y) :
    (xs ++ [x])[i]? = some y := by
  rw [getElem?_append_left (List.getElem?_eq_some_iff.mp h).1, h]

theorem Taken.reject (ht : Taken cfg env done t) {res : RPCRes}
    (h : precheck cfg env done.length raw = .error res) :
    Taken cfg env (done ++ [raw])
      { t with responses := update t.responses done.length (some res) } where
  rejected := by
    intro i raw' res' hraw hpre
    rcases getElem?_concat_cases hraw with hold | ⟨rfl, rfl⟩
    · have hi := (List.getElem?_eq_some_iff.mp hold).1
      dsimp only
      rw [update_of_ne hi.ne]
      exact ht.rejected i raw' res' hold hpre
    · cases h.symm.trans hpre
      exact update_self _ _ _
  mem := by
    intro g e he
    obtain ⟨raw', hraw, hpre⟩ := ht.mem g e he
    exact ⟨raw', getElem?_concat_of_some hraw, hpre⟩
  admitted := by
    intro i raw' req group hraw hpre
    rcases getElem?_concat_cases hraw with hold | ⟨rfl, rfl⟩
    · exact ht.admitted i raw' req group hold hpre
    · cases h.symm.trans hpre
  indices := ht.indices
  separate := ht.separate
  numbered := ht.numbered
  distinct := ht.distinct
  keys := ht.keys

variable {group : String} {req : RPCReq}

theorem mem_push :
    e ∈ (t.push i req group).batches g ↔
      e ∈ t.batches g ∨ g = ⟨t.ids req.id + 1, group⟩ ∧ e = ⟨req, i⟩ := by
  dsimp only [Intake.push]
  by_cases hg : g = ⟨t.ids req.id + 1, group⟩
  · subst hg
    rw [update_self, mem_append, mem_singleton]
    simp
  · rw [update_of_ne hg]
    simp [hg]

theorem nodup_map_push {α : Type} {f : BatchElem → α} (hall : ∀ g, ((t.batches g).map f).Nodup)
    (hnew : f ⟨req, i⟩ ∉ (t.batches ⟨t.ids req.id + 1, group⟩).map f) (g : BatchGroup) :
    (((t.push i req group).batches g).map f).Nodup := by
  dsimp only [Intake.push]
  by_cases hg : g = ⟨t.ids req.id + 1, group⟩
  · subst hg
    rw [update_self, map_append, map_singleton]
    exact (hall _).append (nodup_singleton _) (disjoint_singleton.mpr hnew)
  · rw [update_of_ne hg]
    exact hall g

theorem mem_keys_push :
    g ∈ (t.push i req group).keys ↔ g ∈ t.keys ∨ g = ⟨t.ids req.id + 1, group⟩ := by
  dsimp only [Intake.push]
  split
  next hk =>
    constructor
    · exact .inl
    · rintro (h | rfl)
      · exact h
      · exact hk
  · rw [mem_append, mem_singleton]

variable (ht : Taken cfg env done t)
include ht

theorem Taken.push (h : precheck cfg env done.length raw = .ok (req, group)) :
    Taken cfg env (done ++ [raw]) (t.push done.length req group) where
  rejected := by
    intro i raw' res hraw hpre
    rcases getElem?_concat_cases hraw with hold | ⟨rfl, rfl⟩
    · exact ht.rejected i raw' res hold hpre
    · cases h.symm.trans hpre
  mem := by
    intro g e he
    rcases mem_push.mp he with hold | ⟨rfl, rfl⟩
    · obtain ⟨raw', hraw, hpre⟩ := ht.mem g e hold
      exact ⟨raw', getElem?_concat_of_some hraw, hpre⟩
    · exact ⟨raw, getElem?_concat_length, h⟩
  admitted := by
    intro i raw' req' group' hraw hpre
    rcases getElem?_concat_cases hraw with hold | ⟨rfl, rfl⟩
    · obtain ⟨g, hg, he⟩ := ht.admitted i raw' req' group' hold hpre
      exact ⟨g, mem_keys_push.mpr (.inl hg), mem_push.mpr (.inl he)⟩
    · cases h.symm.trans hpre
      exact ⟨_, mem_keys_push.mpr (.inr rfl), mem_push.mpr (.inr ⟨rfl, rfl⟩)⟩
  indices := by
    refine nodup_map_push ht.indices fun hm => ?_
    obtain ⟨e, he, hindex⟩ := mem_map.mp hm
    exact (ht.index_lt he).ne hindex
  separate := by
    intro g g' e e' he he' hindex
    rcases mem_push.mp he with hold | ⟨rfl, rfl⟩
    · rcases mem_push.mp he' with hold' | ⟨rfl, rfl⟩
      · exact ht.separate g g' e e' hold hold' hindex
      · exact absurd hindex (ht.index_lt hold).ne
    · rcases mem_push.mp he' with hold' | ⟨rfl, rfl⟩
      · exact absurd hindex.symm (ht.index_lt hold').ne
      · rfl
  numbered := by
    intro g e he
    dsimp only [Intake.push]
    rcases mem_push.mp he with hold | ⟨rfl, rfl⟩
    · have hle := ht.numbered g e hold
      by_cases hid : e.req.id = req.id
      · rw [hid, update_self, ← hid]
        omega
      · rw [update_of_ne hid]
        exact hle
    · rw [update_self]
  distinct := by
    refine nodup_map_push ht.distinct fun hm => ?_
    obtain ⟨e, he, hid⟩ := mem_map.mp hm
    -- A request of the group with this ID would have raised the count to the group's number.
    have hle := ht.numbered _ e he
    rw [hid] at hle
    exact absurd hle (by simp)
  keys := by
    dsimp only [Intake.push]
    split
    · exact ht.keys
    next hk =>
      apply ht.keys.append (nodup_singleton _)
      rwa [disjoint_singleton]

theorem Taken.add (raw : Option RPCReq) :
    Taken cfg env (done ++ [raw]) (t.add cfg env done.length raw) := by
  unfold Intake.add
  split
  next res h => exact ht.reject h
  next req group h => exact ht.push h

theorem taken_intake (rest : List (Option RPCReq)) :
    Taken cfg env (done ++ rest) (intake cfg env done.length t rest) := by
  induction rest generalizing done t with
  | nil => rwa [append_nil]
  | cons raw rest ih =>
    have h := ih (ht.add raw)
    rwa [append_assoc, length_append] at h

theorem Taken.nodup_indices {gs : List BatchGroup} (hgs : gs.Nodup) :
    ((gs.flatMap t.batches).map BatchElem.index).Nodup := by
  induction gs with
  | nil => exact nodup_nil
  | cons g gs ih =>
    obtain ⟨hg, hgs⟩ := nodup_cons.mp hgs
    rw [flatMap_cons, map_append]
    apply (ht.indices g).append (ih hgs)
    intro i hi hi'
    obtain ⟨e, he, rfl⟩ := mem_map.mp hi
    obtain ⟨e', he', hindex⟩ := mem_map.mp hi'
    obtain ⟨g', hg', he'⟩ := mem_flatMap.mp he'
    rw [ht.separate g g' e e' he he' hindex.symm] at hg
    exact hg hg'

end Proxyd
