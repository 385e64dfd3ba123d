import TokamakTitan.Proxyd.Grouping
import TokamakTitan.Proxyd.Replies

/-! The second loop over a batch: every admitted request is answered from the cache or forwarded in
one minibatch, and a write for one request touches no other. -/
namespace Proxyd
open List
open Checked (bind_eq_ok)

section Lengths

variable {sorter : KeySort.Sorter RPCRes} {reqs : List RPCReq}

variable {out : List RPCRes} {res : List (Option RPCRes)}

theorem length_sortBatchRPCResponse (h : sortBatchRPCResponse sorter reqs res = .ok out) :
    out.length = res.length := by
  by_cases hnd : (reqs.map RPCReq.id).Nodup
  · obtain ⟨rs, rfl, rfl⟩ := (sortBatchRPCResponse_eq_ok hnd).mp h
    rw [(sorter.perm _ rs).length_eq, length_map]
  · unfold sortBatchRPCResponse at h
    rw [if_pos hnd] at h
    cases h

theorem length_captureStatuses {status : ℕ} {res' : List (Option RPCRes)}
    (h : captureStatuses status res = .ok res') : res'.length = res.length := by
  unfold captureStatuses at h
  split at h
  · cases h
    rfl
  · exact (Checked.mapM_eq_ok.mp h).length_eq.symm

theorem length_doForward {attempt : Attempt} (h : doForward sorter reqs attempt = .ok out) :
    out.length = reqs.length := by
  cases attempt with
  | failed => cases h
  | reply =>
    rw [doForward] at h
    split at h
    · cases h
    · obtain ⟨res, -, h⟩ := bind_eq_ok.mp h
      split at h
      · cases h
      next hlen =>
        obtain ⟨res', hcap, h⟩ := bind_eq_ok.mp h
        rw [length_sortBatchRPCResponse h, length_captureStatuses hcap, not_not.mp hlen]

variable {P : List RPCRes → Prop} {sends : ℕ}

theorem retry_eq_ok {attempts : List Attempt}
    (hP : ∀ a ∈ attempts, ∀ out, doForward sorter reqs a = .ok out → P out)
    (h : retry sorter reqs attempts = (.ok out, sends)) : P out := by
  induction attempts generalizing sends with
  | nil => cases h
  | cons a rest ih =>
    rw [retry] at h
    split at h
    next res hres =>
      cases h
      exact hP a mem_cons_self _ hres
    · cases h
    · cases h
    · cases hr : retry sorter reqs rest with
      | mk =>
        rw [hr] at h
        cases h
        exact ih (fun a ha => hP a (mem_cons_of_mem _ ha)) hr

theorem groupForward_eq_ok {backs : List BackendRun}
    (hP : ∀ b ∈ backs, ∀ a ∈ b.attempts, ∀ out, doForward sorter reqs a = .ok out → P out)
    (h : groupForward sorter reqs backs = (.ok out, sends)) : P out := by
  induction backs generalizing sends with
  | nil => cases h
  | cons b rest ih =>
    rw [groupForward] at h
    split at h
    next res sends' hres =>
      cases h
      rw [BackendRun.forward] at hres
      split at hres
      · exact retry_eq_ok (hP b mem_cons_self) hres
      · cases hres
    · cases h
    · cases hr : groupForward sorter reqs rest with
      | mk =>
        rw [hr] at h
        cases h
        exact ih (fun b hb => hP b (mem_cons_of_mem _ hb)) hr

end Lengths

variable {elems : List BatchElem}

section Minibatches

variable {size : ℕ}

theorem flatten_take (n : ℕ) (elems : List BatchElem) :
    ((range n).map fun i => (elems.drop (i * size)).take size).flatten =
      elems.take (n * size) := by
  induction n with
  | zero => simp
  | succ n ih =>
    rw [range_succ, map_append, flatten_append, ih, Nat.succ_mul, take_add]
    simp

theorem flatten_minibatches (hsize : 0 < size) : (minibatches size elems).flatten = elems := by
  rw [minibatches, flatten_take]
  apply take_of_length_le
  have hdiv := Nat.div_add_mod (elems.length + size - 1) size
  have hmod := Nat.mod_lt (elems.length + size - 1) hsize
  rw [Nat.mul_comm] at hdiv
  omega

variable {m : List BatchElem}

theorem length_of_mem_minibatches (h : m ∈ minibatches size elems) : m.length ≤ size := by
  obtain ⟨i, -, rfl⟩ := mem_map.mp h
  exact length_take_le _ _

theorem sublist_of_mem_minibatches (h : m ∈ minibatches size elems) : m.Sublist elems := by
  obtain ⟨i, -, rfl⟩ := mem_map.mp h
  exact (take_sublist _ _).trans (drop_sublist _ _)

theorem ne_nil_of_mem_minibatches (hsize : 0 < size) (h : m ∈ minibatches size elems) : m ≠ [] := by
  obtain ⟨i, hi, rfl⟩ := mem_map.mp h
  rw [mem_range, Nat.lt_div_iff_mul_lt hsize] at hi
  apply ne_nil_of_length_pos
  rw [length_take, length_drop]
  omega

end Minibatches

variable {e : BatchElem} {i : ℕ} {env : Env}

section Writes

variable {r : ℕ → Option RPCRes} {res : List RPCRes}

theorem scatter_of_notMem (h : i ∉ elems.map BatchElem.index) : scatter r elems res i = r i := by
  induction elems generalizing r res with
  | nil => rfl
  | cons e elems ih =>
    rw [map_cons, mem_cons, not_or] at h
    cases res with
    | nil => rfl
    | cons =>
      rw [scatter, ih h.2, Function.update_of_ne h.1]

theorem scatter_getElem {j : ℕ} {x : RPCRes} (hnd : (elems.map BatchElem.index).Nodup)
    (he : elems[j]? = some e) (hx : res[j]? = some x) : scatter r elems res e.index = some x := by
  induction elems generalizing r res j with
  | nil => cases he
  | cons e' elems ih =>
    obtain ⟨hnotMem, hnd⟩ := nodup_cons.mp hnd
    cases res with
    | nil => cases hx
    | cons =>
      cases j with
      | zero =>
        cases he
        cases hx
        rw [scatter, scatter_of_notMem hnotMem, Function.update_self]
      | succ => exact ih hnd he hx

variable {p : Progress}

theorem takeCached_log (batch : List BatchElem) : (takeCached env p batch).log = p.log := by
  induction batch generalizing p with
  | nil => rfl
  | cons e batch ih =>
    rw [takeCached]
    split
    · rw [ih]
    · exact ih

variable {batch : List BatchElem}

theorem takeCached_of_notMem (h : i ∉ batch.map BatchElem.index) :
    (takeCached env p batch).responses i = p.responses i := by
  induction batch generalizing p with
  | nil => rfl
  | cons e batch ih =>
    rw [map_cons, mem_cons, not_or] at h
    rw [takeCached]
    split
    · rw [ih h.2]
      exact Function.update_of_ne h.1 _ _
    · exact ih h.2

theorem takeCached_of_mem {x : RPCRes} (hnd : (batch.map BatchElem.index).Nodup) (he : e ∈ batch)
    (hx : env.lookup e = some x) : (takeCached env p batch).responses e.index = some x := by
  induction batch generalizing p with
  | nil => cases he
  | cons e' batch ih =>
    obtain ⟨hnotMem, hnd⟩ := nodup_cons.mp hnd
    rw [takeCached]
    cases he with
    | head =>
      rw [hx]
      dsimp only
      rw [takeCached_of_notMem hnotMem]
      exact Function.update_self _ _ _
    | tail _ he =>
      split
      · exact ih hnd he
      · exact ih hnd he

end Writes

inductive Ran (env : Env) (f : Forwarded) : Prop
  | ok (h : groupForward (env.sorter f.call) (f.elems.map BatchElem.req)
      (env.upstream f.call f.backendGroup ((f.elems.map BatchElem.req).map wire)) =
        (.ok f.res, f.sends))
  | failed {e : ForwardErr} (h : groupForward (env.sorter f.call) (f.elems.map BatchElem.req)
      (env.upstream f.call f.backendGroup ((f.elems.map BatchElem.req).map wire)) =
        (.error (.err e), f.sends))
      (hres : f.res = f.elems.map fun e => newRPCErrorRes e.req.id errNoBackends)

variable {ms : List (List BatchElem)} {f : Forwarded} {cfg : ServerConfig}

section Serving

variable {group : String} {p p' : Progress}

theorem Ran.length_res (h : Ran env f) : f.res.length = f.elems.length := by
  cases h with
  | ok h =>
    have hlen : f.res.length = (f.elems.map BatchElem.req).length :=
      groupForward_eq_ok (P := fun out => out.length = _)
        (fun _ _ _ _ _ hout => length_doForward hout) h
    rw [hlen, length_map]
  | failed h hres => rw [hres, length_map]

def Forwarded.Written (f : Forwarded) (responses : ℕ → Option RPCRes) : Prop :=
  ∀ (j : ℕ) (e : BatchElem) (x : RPCRes), f.elems[j]? = some e → f.res[j]? = some x →
    responses e.index = some x

/-- What is sent for a group, with the backends that it is sent to. -/
def Intake.calls (cfg : ServerConfig) (env : Env) (t : Intake) (g : BatchGroup) :
    List (String × List BatchElem) :=
  (minibatches cfg.maxUpstreamBatchSize (env.misses (t.batches g))).map (g.backendGroup, ·)

def Env.calls (cfg : ServerConfig) (env : Env) (reqs : List (Option RPCReq)) :
    List (String × List BatchElem) :=
  let t := intake cfg env 0 .empty reqs
  (env.order t.keys).flatMap (t.calls cfg env)

abbrev Forwarded.request (f : Forwarded) : String × List BatchElem := (f.backendGroup, f.elems)

theorem forwardBatch_eq_ok {elems : List BatchElem} (h : forwardBatch env group p elems = .ok p') :
    ∃ f : Forwarded, f.request = (group, elems) ∧ Ran env f ∧
      p'.log = p.log ++ [f] ∧ p'.responses = scatter p.responses elems f.res := by
  unfold forwardBatch at h
  dsimp only at h
  split at h
  · cases h
  · split at h
    next res sends hf =>
      cases h
      exact ⟨⟨p.log.length, group, elems, res, sends⟩, rfl, .ok hf, rfl, rfl⟩
    · cases h
    next e sends hf =>
      cases h
      exact ⟨⟨p.log.length, group, elems, _, sends⟩, rfl, .failed hf rfl, rfl, rfl⟩

structure Forwards (env : Env) (group : String) (ms : List (List BatchElem)) (new : List Forwarded)
    (p p' : Progress) : Prop where
  log : p'.log = p.log ++ new
  requests : new.map Forwarded.request = ms.map (group, ·)
  ran : ∀ f ∈ new, Ran env f
  frame : ∀ i, i ∉ ms.flatten.map BatchElem.index → p'.responses i = p.responses i
  written : ∀ f ∈ new, f.Written p'.responses

theorem forwardBatches_eq_ok (hnd : (ms.flatten.map BatchElem.index).Nodup)
    (h : forwardBatches env group p ms = .ok p') : ∃ new, Forwards env group ms new p p' := by
  induction ms generalizing p with
  | nil =>
    cases h
    refine ⟨[], (append_nil _).symm, rfl, ?_, fun _ _ => rfl, ?_⟩
    · intro f hf
      cases hf
    · intro f hf
      cases hf
  | cons elems ms ih =>
    rw [flatten_cons, map_append] at hnd
    obtain ⟨p1, h1, h2⟩ := bind_eq_ok.mp h
    obtain ⟨f, hrequest, hran, hlog, hresponses⟩ := forwardBatch_eq_ok h1
    obtain rfl : f.elems = elems := congrArg Prod.snd hrequest
    obtain ⟨new, hnew⟩ := ih hnd.of_append_right h2
    have hdisjoint := disjoint_of_nodup_append hnd
    refine ⟨f :: new, ?_, ?_, ?_, ?_, ?_⟩
    · rw [hnew.log, hlog, append_assoc, singleton_append]
    · rw [map_cons, map_cons, hrequest, hnew.requests]
    · exact forall_mem_cons.mpr ⟨hran, hnew.ran⟩
    · intro i hi
      rw [flatten_cons, map_append, mem_append, not_or] at hi
      rw [hnew.frame i hi.2, hresponses, scatter_of_notMem hi.1]
    · refine forall_mem_cons.mpr ⟨?_, hnew.written⟩
      intro j e x he hx
      have hindex := mem_map_of_mem (f := BatchElem.index) (mem_of_getElem? he)
      rw [hnew.frame e.index (fun hm => hdisjoint hindex hm), hresponses]
      exact scatter_getElem hnd.of_append_left he hx

structure Served (env : Env) (calls : List (String × List BatchElem)) (elems : List BatchElem)
    (new : List Forwarded) (p p' : Progress) : Prop where
  log : p'.log = p.log ++ new
  requests : new.map Forwarded.request = calls
  misses : new.flatMap Forwarded.elems = env.misses elems
  ran : ∀ f ∈ new, Ran env f
  frame : ∀ i, i ∉ elems.map BatchElem.index → p'.responses i = p.responses i
  cached : ∀ e ∈ elems, ∀ x, env.lookup e = some x → p'.responses e.index = some x
  written : ∀ f ∈ new, f.Written p'.responses

variable {elems' : List BatchElem} {new new' : List Forwarded}
  {calls calls' : List (String × List BatchElem)}

theorem misses_sublist (env : Env) (elems : List BatchElem) : (env.misses elems).Sublist elems :=
  filter_sublist

theorem misses_append (env : Env) (elems elems' : List BatchElem) :
    env.misses (elems ++ elems') = env.misses elems ++ env.misses elems' :=
  filter_append elems elems'

theorem index_of_mem_new (hmisses : new.flatMap Forwarded.elems = env.misses elems) (hf : f ∈ new)
    (he : e ∈ f.elems) : e.index ∈ elems.map BatchElem.index := by
  have hmem : e ∈ env.misses elems := hmisses ▸ mem_flatMap.mpr ⟨f, hf, he⟩
  exact mem_map_of_mem ((misses_sublist env elems).subset hmem)

theorem Served.trans {p'' : Progress} (h : Served env calls elems new p p')
    (h' : Served env calls' elems' new' p' p'')
    (hnd : ((elems ++ elems').map BatchElem.index).Nodup) :
    Served env (calls ++ calls') (elems ++ elems') (new ++ new') p p'' := by
  rw [map_append] at hnd
  have hdisjoint := disjoint_of_nodup_append hnd
  constructor
  case log => rw [h'.log, h.log, append_assoc]
  case requests => rw [map_append, h.requests, h'.requests]
  case misses => rw [flatMap_append, h.misses, h'.misses, misses_append]
  case ran => exact forall_mem_append.mpr ⟨h.ran, h'.ran⟩
  case frame =>
    intro i hi
    rw [map_append, mem_append, not_or] at hi
    rw [h'.frame i hi.2, h.frame i hi.1]
  case cached =>
    refine forall_mem_append.mpr ⟨fun e he x hx => ?_, h'.cached⟩
    rw [h'.frame e.index fun hm => hdisjoint (mem_map_of_mem he) hm]
    exact h.cached e he x hx
  case written =>
    refine forall_mem_append.mpr ⟨fun f hf j e x he hx => ?_, h'.written⟩
    have hindex := index_of_mem_new h.misses hf (mem_of_getElem? he)
    rw [h'.frame e.index fun hm => hdisjoint hindex hm]
    exact h.written f hf j e x he hx

theorem lookup_of_mem_misses (h : e ∈ env.misses elems) : env.lookup e = none :=
  Option.isNone_iff_eq_none.mp (mem_filter.mp h).2

theorem served_group {t : Intake} {g : BatchGroup} (hsize : 0 < cfg.maxUpstreamBatchSize)
    (hnd : ((t.batches g).map BatchElem.index).Nodup)
    (h : forwardBatches env g.backendGroup (takeCached env p (t.batches g))
      (minibatches cfg.maxUpstreamBatchSize (env.misses (t.batches g))) = .ok p') :
    ∃ new, Served env (t.calls cfg env g) (t.batches g) new p p' := by
  unfold Intake.calls
  generalize t.batches g = batch at h hnd ⊢
  have hflat : (minibatches cfg.maxUpstreamBatchSize (env.misses batch)).flatten =
      env.misses batch := flatten_minibatches hsize
  have hsub := misses_sublist env batch
  have hnd' : ((minibatches cfg.maxUpstreamBatchSize (env.misses batch)).flatten.map
      BatchElem.index).Nodup := by
    rw [hflat]
    exact hnd.sublist (hsub.map _)
  obtain ⟨new, hnew⟩ := forwardBatches_eq_ok hnd' h
  refine ⟨new, ?_⟩
  constructor
  case log => rw [hnew.log, takeCached_log]
  case requests => exact hnew.requests
  case misses =>
    have helems := congrArg (map Prod.snd) hnew.requests
    simp only [map_map, Function.comp_def, map_id'] at helems
    rw [← hflat, ← helems, flatMap_def]
  case ran => exact hnew.ran
  case frame =>
    intro i hi
    rw [hnew.frame i, takeCached_of_notMem hi]
    rw [hflat]
    exact fun hm => hi ((hsub.map _).subset hm)
  case cached =>
    intro e he x hx
    rw [hnew.frame e.index, takeCached_of_mem hnd he hx]
    rw [hflat]
    intro hm
    -- A request that was found is not among the misses.
    obtain ⟨e', he', hindex⟩ := mem_map.mp hm
    have heq := inj_on_of_nodup_map hnd (hsub.subset he') he hindex
    rw [heq] at he'
    rw [lookup_of_mem_misses he'] at hx
    cases hx
  case written => exact hnew.written

theorem serveGroups_eq_ok {t : Intake} {gs : List BatchGroup} (hsize : 0 < cfg.maxUpstreamBatchSize)
    (hnd : ((gs.flatMap t.batches).map BatchElem.index).Nodup)
    (h : serveGroups cfg env t p gs = .ok p') :
    ∃ new, Served env (gs.flatMap (t.calls cfg env)) (gs.flatMap t.batches) new p p' := by
  induction gs generalizing p with
  | nil =>
    cases h
    refine ⟨[], (append_nil _).symm, rfl, rfl, ?_, fun _ _ => rfl, ?_, ?_⟩
    all_goals
      intro f hf
      cases hf
  | cons g gs ih =>
    obtain ⟨p1, h1, h2⟩ := bind_eq_ok.mp h
    rw [flatMap_cons] at hnd
    have hnd' := hnd
    rw [map_append] at hnd'
    obtain ⟨new, hnew⟩ := served_group hsize hnd'.of_append_left h1
    obtain ⟨new', hnew'⟩ := ih hnd'.of_append_right h2
    exact ⟨new ++ new', hnew.trans hnew' hnd⟩

end Serving

structure Handled (cfg : ServerConfig) (env : Env) (reqs : List (Option RPCReq))
    (out : Outcome) : Prop where
  length : out.responses.length = reqs.length
  rejected : ∀ i raw res, reqs[i]? = some raw → precheck cfg env i raw = .error res →
    out.responses[i]? = some (some res)
  cached : ∀ i raw req group res, reqs[i]? = some raw → precheck cfg env i raw = .ok (req, group) →
    env.lookup ⟨req, i⟩ = some res → out.responses[i]? = some (some res)
  missed : ∀ i raw req group, reqs[i]? = some raw → precheck cfg env i raw = .ok (req, group) →
    env.lookup ⟨req, i⟩ = none → ⟨req, i⟩ ∈ out.log.flatMap Forwarded.elems
  written : ∀ f ∈ out.log, ∀ (j : ℕ) (e : BatchElem) (x : RPCRes), f.elems[j]? = some e →
    f.res[j]? = some x → out.responses[e.index]? = some (some x)
  once : ((out.log.flatMap Forwarded.elems).map BatchElem.index).Nodup
  requests : out.log.map Forwarded.request = env.calls cfg reqs
  ran : ∀ f ∈ out.log, Ran env f
  full : ∀ f ∈ out.log, f.res.length = f.elems.length

variable {reqs : List (Option RPCReq)} {out : Outcome}

theorem getElem?_responses {n : ℕ} {r : ℕ → Option RPCRes} (h : i < n) :
    ((range n).map r)[i]? = some (r i) := by
  rw [getElem?_map, getElem?_range h]
  rfl

/-- A list that is sent. -/
structure Sent (cfg : ServerConfig) (m : List BatchElem) : Prop where
  size : m.length ≤ cfg.maxUpstreamBatchSize
  nonempty : m.map BatchElem.req ≠ []
  distinct : ((m.map BatchElem.req).map RPCReq.id).Nodup

theorem sent_of_mem_calls (hsize : 0 < cfg.maxUpstreamBatchSize) {group : String}
    {m : List BatchElem} (h : (group, m) ∈ env.calls cfg reqs) : Sent cfg m := by
  obtain ⟨g, -, h⟩ := mem_flatMap.mp h
  obtain ⟨m', hm, hcall⟩ := mem_map.mp h
  cases hcall
  refine ⟨length_of_mem_minibatches hm, ?_, ?_⟩
  · exact fun hnil => ne_nil_of_mem_minibatches hsize hm (map_eq_nil_iff.mp hnil)
  · have hsub := (sublist_of_mem_minibatches hm).trans (misses_sublist env _)
    rw [map_map]
    exact ((taken_intake taken_empty reqs).distinct g).sublist (hsub.map _)

theorem handled_of_handleBatchRPC (hsize : 0 < cfg.maxUpstreamBatchSize)
    (h : handleBatchRPC cfg env reqs = .ok out) : Handled cfg env reqs out := by
  obtain ⟨p, hp, hout⟩ := bind_eq_ok.mp h
  cases hout
  have ht : Taken cfg env reqs (intake cfg env 0 .empty reqs) := taken_intake taken_empty reqs
  generalize htake : intake cfg env 0 .empty reqs = t at hp ht
  have hperm := env.order_perm t.keys
  have hnd := ht.nodup_indices (hperm.nodup_iff.mpr ht.keys)
  obtain ⟨new, hs⟩ := serveGroups_eq_ok hsize hnd hp
  have hlog : p.log = new := hs.log
  have hmem : ∀ i raw req group, reqs[i]? = some raw → precheck cfg env i raw = .ok (req, group) →
      ⟨req, i⟩ ∈ (env.order t.keys).flatMap t.batches := by
    intro i raw req group hraw hpre
    obtain ⟨g, hg, he⟩ := ht.admitted i raw req group hraw hpre
    exact mem_flatMap.mpr ⟨g, hperm.mem_iff.mpr hg, he⟩
  have hlt : ∀ {i : ℕ} {raw : Option RPCReq}, reqs[i]? = some raw → i < reqs.length :=
    fun hraw => (List.getElem?_eq_some_iff.mp hraw).1
  constructor
  case length => rw [length_map, length_range]
  case rejected =>
    intro i raw res hraw hpre
    rw [getElem?_responses (hlt hraw), hs.frame i]
    · exact congrArg some (ht.rejected i raw res hraw hpre)
    intro hm
    obtain ⟨e, he, rfl⟩ := mem_map.mp hm
    obtain ⟨g, -, he⟩ := mem_flatMap.mp he
    obtain ⟨raw', hraw', hpre'⟩ := ht.mem g e he
    cases hraw.symm.trans hraw'
    cases hpre.symm.trans hpre'
  case cached =>
    intro i raw req group res hraw hpre hlookup
    rw [getElem?_responses (hlt hraw)]
    exact congrArg some (hs.cached _ (hmem i raw req group hraw hpre) res hlookup)
  case missed =>
    intro i raw req group hraw hpre hlookup
    rw [hlog, hs.misses]
    exact mem_filter.mpr ⟨hmem i raw req group hraw hpre, by rw [hlookup]; rfl⟩
  case written =>
    intro f hf j e x he hx
    rw [hlog] at hf
    have hindex := index_of_mem_new hs.misses hf (mem_of_getElem? he)
    obtain ⟨e', he', hindex⟩ := mem_map.mp hindex
    obtain ⟨g, -, he'⟩ := mem_flatMap.mp he'
    rw [← hindex, getElem?_responses (ht.index_lt he'), hindex, hs.written f hf j e x he hx]
  case once =>
    rw [hlog, hs.misses]
    exact hnd.sublist ((misses_sublist env _).map _)
  case requests => rw [hlog, hs.requests, Env.calls, htake]
  case ran => exact hlog ▸ hs.ran
  case full => exact hlog ▸ fun f hf => (hs.ran f hf).length_res

theorem Handled.sent (hh : Handled cfg env reqs out) (hsize : 0 < cfg.maxUpstreamBatchSize)
    (hf : f ∈ out.log) : Sent cfg f.elems :=
  sent_of_mem_calls hsize (hh.requests ▸ mem_map_of_mem (f := Forwarded.request) hf)

def Env.Panics (env : Env) (group : String) (m : List BatchElem) : Prop :=
  ∃ call sends, groupForward (env.sorter call) (m.map BatchElem.req)
    (env.upstream call group ((m.map BatchElem.req).map wire)) = (.error .panic, sends)

theorem forwardBatches_eq_panic {group : String} {p : Progress}
    (h : forwardBatches env group p ms = .error .panic) : ∃ m ∈ ms, env.Panics group m := by
  induction ms generalizing p with
  | nil => cases h
  | cons elems ms ih =>
    rcases Checked.bind_eq_error.mp h with h1 | ⟨p1, -, h2⟩
    · refine ⟨elems, mem_cons_self, ?_⟩
      unfold forwardBatch at h1
      dsimp only at h1
      split at h1
      · cases h1
      · split at h1
        · cases h1
        next sends hf => exact ⟨_, sends, hf⟩
        · cases h1
    · obtain ⟨m, hm, hpanics⟩ := ih h2
      exact ⟨m, mem_cons_of_mem _ hm, hpanics⟩

theorem handleBatchRPC_eq_panic (h : handleBatchRPC cfg env reqs = .error .panic) :
    ∃ group m, (group, m) ∈ env.calls cfg reqs ∧ env.Panics group m := by
  dsimp only [Env.calls]
  rcases Checked.bind_eq_error.mp h with h | ⟨p, -, h⟩
  · generalize intake cfg env 0 .empty reqs = t at h ⊢
    generalize (⟨t.responses, false, []⟩ : Progress) = p at h
    generalize env.order t.keys = gs at h ⊢
    induction gs generalizing p with
    | nil => cases h
    | cons g gs ih =>
      rcases Checked.bind_eq_error.mp h with h1 | ⟨p1, -, h2⟩
      · obtain ⟨m, hm, hpanics⟩ := forwardBatches_eq_panic h1
        have hcall : (g.backendGroup, m) ∈ t.calls cfg env g := mem_map_of_mem hm
        exact ⟨_, m, mem_append_left _ hcall, hpanics⟩
      · obtain ⟨group, m, hm, hpanics⟩ := ih p1 h2
        exact ⟨group, m, mem_append_right _ hm, hpanics⟩
  · cases h

end Proxyd
