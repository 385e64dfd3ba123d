import TokamakTitan.Proxyd.Serving
import TokamakTitan.Proxyd.Slots

/-! Batches of requests against backends of two kinds: those that give any reply, and those that
answer every request once. -/
namespace Proxyd
open List
open KeySort (Sorter)

section Groups

variable {sorter : Sorter RPCRes} {reqs : List RPCReq}

theorem retry_ne_panic {attempts : List Attempt}
    (h : ∀ a ∈ attempts, doForward sorter reqs a ≠ .error .panic) (sends : ℕ) :
    retry sorter reqs attempts ≠ (.error .panic, sends) := by
  induction attempts generalizing sends with
  | nil => rintro ⟨⟩
  | cons a rest ih =>
    rw [retry]
    split
    · rintro ⟨⟩
    next hp => exact absurd hp (h a mem_cons_self)
    · rintro ⟨⟩
    · have hrest := ih fun a ha => h a (mem_cons_of_mem _ ha)
      cases hr : retry sorter reqs rest with
      | mk res sends' =>
        rintro ⟨⟩
        exact hrest sends' hr

variable {backs : List BackendRun}

theorem groupForward_ne_panic
    (h : ∀ b ∈ backs, ∀ a ∈ b.attempts, doForward sorter reqs a ≠ .error .panic) (sends : ℕ) :
    groupForward sorter reqs backs ≠ (.error .panic, sends) := by
  induction backs generalizing sends with
  | nil => rintro ⟨⟩
  | cons b rest ih =>
    rw [groupForward]
    split
    · rintro ⟨⟩
    next sends' hp =>
      rw [BackendRun.forward] at hp
      split at hp
      · exact absurd hp (retry_ne_panic (h b mem_cons_self) sends')
      · cases hp
    · have hrest := ih fun b hb => h b (mem_cons_of_mem _ hb)
      cases hr : groupForward sorter reqs rest with
      | mk res sends' =>
        rintro ⟨⟩
        exact hrest sends' hr

variable {skipped : List BackendRun}

theorem groupForward_skipped (h : ∀ b ∈ skipped, b.online = false) :
    groupForward sorter reqs (skipped ++ backs) = groupForward sorter reqs backs := by
  induction skipped with
  | nil => rfl
  | cons b skipped ih =>
    have hb : b.forward sorter reqs = (.error (.err .offline), 0) := by
      rw [BackendRun.forward, h b mem_cons_self]
      rfl
    rw [cons_append, groupForward, hb]
    dsimp only
    rw [ih fun b hb => h b (mem_cons_of_mem _ hb), Nat.zero_add]

variable {out : List RPCRes}

theorem groupForward_first {rest : List BackendRun} {b : BackendRun} {a : Attempt}
    {more : List Attempt} (h : ∀ s ∈ skipped, s.online = false) (hb : b.online = true)
    (ha : b.attempts = a :: more) (hout : doForward sorter reqs a = .ok out) :
    groupForward sorter reqs (skipped ++ b :: rest) = (.ok out, 1) := by
  have hf : b.forward sorter reqs = (.ok out, 1) := by
    rw [BackendRun.forward, if_pos hb, ha, retry, hout]
  rw [groupForward_skipped h, groupForward, hf]

theorem groupForward_of_rejected (h : ∀ b ∈ backs, ∀ a ∈ b.attempts, Rejected reqs a) {sends : ℕ} :
    groupForward sorter reqs backs ≠ (.ok out, sends) := by
  intro hok
  refine groupForward_eq_ok (P := fun _ => False) (fun b hb a ha out hout => ?_) hok
  obtain ⟨e, he⟩ := doForward_of_rejected sorter (h b hb a ha)
  cases he.symm.trans hout

end Groups

theorem exists_getElem?_of_forall₂ {α β : Type} {R : α → β → Prop} {xs : List α} {ys : List β}
    (h : Forall₂ R xs ys) {j : ℕ} {x : α} (hx : xs[j]? = some x) :
    ∃ y, ys[j]? = some y ∧ R x y := by
  induction h generalizing j with
  | nil => cases hx
  | cons hxy _ ih =>
    cases j with
    | zero =>
      cases hx
      exact ⟨_, rfl, hxy⟩
    | succ => exact ih hx

theorem id_of_lookup {env : Env} {e : BatchElem} {res : RPCRes} (h : env.lookup e = some res) :
    res.id = e.req.id := by
  unfold Env.lookup at h
  split at h
  next res' hres =>
    subst h
    cases getRPC_eq_some hres with
    | static => rfl
    | blockNumber => rfl
    | gasPrice => rfl
    | entry => rfl
  · cases h

/-! ### Backends with any replies -/

/-- Every reply to a list that the batch sends is rejected or echoes its IDs. -/
def Env.Sane (cfg : ServerConfig) (env : Env) (reqs : List (Option RPCReq)) : Prop :=
  ∀ group m, (group, m) ∈ env.calls cfg reqs → ∀ call,
    ∀ b ∈ env.upstream call group ((m.map BatchElem.req).map wire), ∀ a ∈ b.attempts,
      Rejected (m.map BatchElem.req) a ∨ Echoes (m.map BatchElem.req) a

/-- No panic reaches the caller, every admitted request is answered under its ID, and with an error
if all its replies were rejected. -/
structure Isolated (cfg : ServerConfig) (env : Env) (reqs : List (Option RPCReq)) : Prop where
  noPanic : handleBatchRPC cfg env reqs ≠ .error .panic
  ids : ∀ out, handleBatchRPC cfg env reqs = .ok out → ∀ i raw req group, reqs[i]? = some raw →
    precheck cfg env i raw = .ok (req, group) →
    ∃ res, out.responses[i]? = some (some res) ∧ res.id = req.id
  errors : ∀ out, handleBatchRPC cfg env reqs = .ok out → ∀ f ∈ out.log,
    (∀ b ∈ env.upstream f.call f.backendGroup ((f.elems.map BatchElem.req).map wire),
      ∀ a ∈ b.attempts, Rejected (f.elems.map BatchElem.req) a) →
    f.res = f.elems.map fun e => newRPCErrorRes e.req.id errNoBackends

variable {reqs : List (Option RPCReq)} {cfg : ServerConfig} {out : Outcome} {env : Env}

theorem Handled.ids (hh : Handled cfg env reqs out) (hsize : 0 < cfg.maxUpstreamBatchSize)
    (hsane : env.Sane cfg reqs) {f : Forwarded} (hf : f ∈ out.log) :
    f.res.map RPCRes.id = f.elems.map fun e => e.req.id := by
  cases hh.ran f hf with
  | ok h =>
    have hmem : f.request ∈ env.calls cfg reqs := hh.requests ▸ mem_map_of_mem hf
    have hids : f.res.map RPCRes.id = (f.elems.map BatchElem.req).map RPCReq.id := by
      refine groupForward_eq_ok (P := fun out => out.map RPCRes.id = _)
        (fun b hb a ha out hout => ?_) h
      have hgood := hsane _ _ hmem f.call b hb a ha
      exact ((doForward_isolates_iff (hh.sent hsize hf).distinct).mpr hgood).2 out hout
    rw [hids, map_map]
    rfl
  | failed h hres =>
    rw [hres, map_map]
    rfl

theorem isolated_of_sane (hsize : 0 < cfg.maxUpstreamBatchSize) (hsane : env.Sane cfg reqs) :
    Isolated cfg env reqs := by
  constructor
  case noPanic =>
    intro h
    obtain ⟨group, m, hm, call, sends, hpanic⟩ := handleBatchRPC_eq_panic h
    refine groupForward_ne_panic (fun b hb a ha => ?_) sends hpanic
    have hnd := (sent_of_mem_calls hsize hm).distinct
    exact ((doForward_isolates_iff hnd).mpr (hsane group m hm call b hb a ha)).1
  case ids =>
    intro out hout i raw req group hraw hpre
    have hh := handled_of_handleBatchRPC hsize hout
    cases hlookup : env.lookup ⟨req, i⟩ with
    | some res =>
      exact ⟨res, hh.cached i raw req group res hraw hpre hlookup, id_of_lookup hlookup⟩
    | none =>
      obtain ⟨f, hf, he⟩ := mem_flatMap.mp (hh.missed i raw req group hraw hpre hlookup)
      obtain ⟨j, hj⟩ := mem_iff_getElem?.mp he
      have hid := congrArg (fun ids : List RawMessage => ids[j]?) (hh.ids hsize hsane hf)
      simp only [getElem?_map, hj, Option.map_some, Option.map_eq_some_iff] at hid
      obtain ⟨res, hres, hid⟩ := hid
      exact ⟨res, hh.written f hf j _ res hj hres, hid⟩
  case errors =>
    intro out hout f hf hrejected
    cases (handled_of_handleBatchRPC hsize hout).ran f hf with
    | ok h => exact absurd h (groupForward_of_rejected hrejected)
    | failed h hres => exact hres

/-- For every batch: if every reply is rejected or echoes the IDs of its requests, the batch is
isolated from the backends. For a single reply this is exactly when forwarding neither panics nor
returns an element under the ID of another request. -/
theorem misbehaving_backends (cfg : ServerConfig) (hsize : 0 < cfg.maxUpstreamBatchSize)
    (env : Env) (reqs : List (Option RPCReq)) :
    (env.Sane cfg reqs → Isolated cfg env reqs) ∧
    ∀ (sorter : Sorter RPCRes) (batch : List RPCReq) (attempt : Attempt),
      (batch.map RPCReq.id).Nodup →
      ((doForward sorter batch attempt ≠ .error .panic ∧
        ∀ out, doForward sorter batch attempt = .ok out →
          out.map RPCRes.id = batch.map RPCReq.id) ↔
        Rejected batch attempt ∨ Echoes batch attempt) :=
  ⟨isolated_of_sane hsize, fun _ _ _ hnd => doForward_isolates_iff hnd⟩

def mainConfig : ServerConfig := {
  rpcMethodMappings := fun _ => "main"
  overrideLims := fun _ => false
  senderLim := false
  maxUpstreamBatchSize := 10 }

def mainEnv (upstream : ℕ → String → List RPCReq → List BackendRun) : Env := {
  limited := fun _ => false
  decodeTx := fun _ => .error "unexpected EOF"
  takeSender := fun _ _ => none
  order := fun keys => keys
  order_perm := fun _ => List.Perm.refl _
  cache := fun _ => emptyCache
  expired := fun _ => false
  sorter := fun _ => KeySort.insertion RPCRes
  upstream }

def replying (status : ℕ) (body : Body) : Env :=
  mainEnv fun _ _ _ => [⟨true, [.reply status body]⟩]

def balanceOf (id : RawMessage) : RPCReq := {
  jsonrpc := jsonrpcVersion, method := "eth_getBalance", params := none, id }

def trueFor (id : RawMessage) : RPCRes := {
  jsonrpc := jsonrpcVersion, result := .bool true, id }

def responseIDs (env : Env) (reqs : List (Option RPCReq)) :
    Except Abort (List (Option RawMessage)) :=
  (handleBatchRPC mainConfig env reqs).map fun out => out.responses.map (Option.map RPCRes.id)

def echoing : Env :=
  mainEnv fun _ _ _ => [⟨true, [.reply 500 .null]⟩,
    ⟨true, [.reply 200 (.array [.object (trueFor [50]), .object (trueFor [49])])]⟩]

/-- One backend fails, and the next one answers out of order. -/
theorem misbehaving_backends_sample :
    Isolated mainConfig echoing [some (balanceOf [49]), none, some (balanceOf [50])] ∧
    responseIDs echoing [some (balanceOf [49]), none, some (balanceOf [50])] =
      .ok [some [49], some [], some [50]] := by
  refine ⟨(misbehaving_backends mainConfig (by decide) _ _).1 ?_, by decide +kernel⟩
  have hcalls : echoing.calls mainConfig [some (balanceOf [49]), none, some (balanceOf [50])] =
      [("main", [⟨balanceOf [49], 0⟩, ⟨balanceOf [50], 2⟩])] := by rfl
  rw [Env.Sane, hcalls]
  intro group m hm call b hb a ha
  obtain ⟨rfl, rfl⟩ := Prod.mk.inj (mem_singleton.mp hm)
  rcases mem_pair.mp hb with rfl | rfl
  · obtain rfl := mem_singleton.mp ha
    exact .inl (.inl (by decide))
  · obtain rfl := mem_singleton.mp ha
    exact .inr ⟨[trueFor [50], trueFor [49]], rfl, fun h => absurd rfl h, by decide⟩

/-- A missing element in an array and an error status with a result end in a panic; a single element
under another ID, and elements under unknown IDs, are returned. -/
theorem malformed_replies :
    responseIDs (replying 200 (.array [.null, .object (trueFor [50])]))
      [some (balanceOf [49]), some (balanceOf [50])] = .error .panic ∧
    responseIDs (replying 400 (.object (trueFor [49]))) [some (balanceOf [49])] =
      .error .panic ∧
    responseIDs (replying 200 (.object (trueFor [55]))) [some (balanceOf [49])] =
      .ok [some [55]] ∧
    responseIDs (replying 200 (.array [.object (trueFor [55]), .object (trueFor [56])]))
      [some (balanceOf [49]), some (balanceOf [50])] = .ok [some [55], some [56]] := by
  decide +kernel

/-! ### Backends that answer every request once -/

/-- What the backends answer to the requests of a call to a group, as they are sent. -/
abbrev AnswerFn := ℕ → String → List RPCReq → List RPCRes

def Env.answered (answers : AnswerFn) (call : ℕ) (group : String) (reqs : List RPCReq) :
    List RPCRes := answers call group (reqs.map wire)

/-- The first backend online answers each request once, under the ID that it received. -/
structure Env.Serves (env : Env) (answers : AnswerFn) (call : ℕ) (group : String)
    (reqs : List RPCReq) : Prop where
  ids : Answers reqs (Env.answered answers call group reqs)
  reply : ∃ skipped b rest status body more,
    env.upstream call group (reqs.map wire) = skipped ++ b :: rest ∧
    (∀ s ∈ skipped, s.online = false) ∧ b.online = true ∧
    b.attempts = .reply status body :: more ∧
    AnswerStatus (Env.answered answers call group reqs) status ∧
    Answered (Env.answered answers call group reqs) body

/-- The backends serve every list of requests with distinct IDs. -/
def Env.Compliant (env : Env) (answers : AnswerFn) : Prop :=
  ∀ call group reqs, reqs ≠ [] → (reqs.map RPCReq.id).Nodup → env.Serves answers call group reqs

/-- What stands at place `i` of the responses: an error or a response of the proxy itself, a cached
response under the request's ID, or the answer to the request, under its ID as sent. -/
inductive Answer (cfg : ServerConfig) (env : Env) (answers : AnswerFn) (out : Outcome) (i : ℕ)
    (raw : Option RPCReq) : RPCRes → Prop
  | rejected {res : RPCRes} (h : Local cfg env i raw res) : Answer cfg env answers out i raw res
  | cached {req : RPCReq} {group : String} {res : RPCRes}
      (h : precheck cfg env i raw = .ok (req, group)) (hc : env.lookup ⟨req, i⟩ = some res)
      (hid : res.id = req.id) : Answer cfg env answers out i raw res
  | backend {req : RPCReq} {group : String} {f : Forwarded} {j status : ℕ} {answer : RPCRes}
      (h : precheck cfg env i raw = .ok (req, group)) (hf : f ∈ out.log)
      (hj : f.elems[j]? = some ⟨req, i⟩)
      (ha : (Env.answered answers f.call f.backendGroup (f.elems.map BatchElem.req))[j]? =
        some answer)
      (hid : answer.id = (wire req).id) : Answer cfg env answers out i raw (stamp status answer)

/-- Every request has its own answer, and what is sent is sent once. -/
structure Routed (cfg : ServerConfig) (env : Env) (answers : AnswerFn)
    (reqs : List (Option RPCReq)) (out : Outcome) : Prop where
  length : out.responses.length = reqs.length
  answered : ∀ i raw, reqs[i]? = some raw →
    ∃ res, out.responses[i]? = some (some res) ∧ Answer cfg env answers out i raw res
  size : ∀ b ∈ out.sent, b.length ≤ cfg.maxUpstreamBatchSize
  distinct : ∀ b ∈ out.sent, (b.map fun e => e.req.id).Nodup ∧
    (b.map fun e => (wire e.req).id).Nodup
  once : ∀ i raw req group, reqs[i]? = some raw → precheck cfg env i raw = .ok (req, group) →
    env.lookup ⟨req, i⟩ = none → (out.sent.flatten.map BatchElem.index).count i = 1

def Sortable (b : List BatchElem) : Prop := b.length = 1 ∨ Orderly (b.map fun e => e.req.id)

section Routing

variable {answers : AnswerFn}

theorem Env.Serves.groupForward {call : ℕ} {group : String} {batch : List RPCReq}
    (h : env.Serves answers call group batch) (hnd : (batch.map RPCReq.id).Nodup) :
    ∃ out status, groupForward (env.sorter call) batch
        (env.upstream call group (batch.map wire)) = (.ok out, 1) ∧
      ((Env.answered answers call group batch).length = 1 ∨ Orderly (batch.map RPCReq.id) →
        out = (Env.answered answers call group batch).map (stamp status)) := by
  obtain ⟨skipped, b, rest, status, body, more, hup, hskip, hb, ha, hs, hbody⟩ := h.reply
  obtain ⟨l, -, hout⟩ := doForward_answered (env.sorter call) hnd h.ids hbody hs
  rw [hup]
  refine ⟨_, status, groupForward_first hskip hb ha hout, fun ho => ?_⟩
  have harranged := doForward_arranges (env.sorter call) hnd h.ids hbody hs ho
  exact Except.ok.inj (hout.symm.trans harranged)

theorem ne_panic_of_compliant (hsize : 0 < cfg.maxUpstreamBatchSize)
    (hc : env.Compliant answers) : handleBatchRPC cfg env reqs ≠ .error .panic := by
  intro h
  obtain ⟨group, m, hm, call, sends, hpanic⟩ := handleBatchRPC_eq_panic h
  have hsent := sent_of_mem_calls hsize hm
  obtain ⟨out, status, hf, -⟩ :=
    (hc call group _ hsent.nonempty hsent.distinct).groupForward hsent.distinct
  cases hf.symm.trans hpanic

theorem Handled.forwarded (hh : Handled cfg env reqs out) (hsize : 0 < cfg.maxUpstreamBatchSize)
    (hc : env.Compliant answers) {f : Forwarded} (hf : f ∈ out.log) :
    Answers (f.elems.map BatchElem.req)
      (Env.answered answers f.call f.backendGroup (f.elems.map BatchElem.req)) ∧
    f.sends = 1 ∧
    ∃ status, Sortable f.elems →
      f.res = (Env.answered answers f.call f.backendGroup (f.elems.map BatchElem.req)).map
        (stamp status) := by
  have hsent := hh.sent hsize hf
  have hserves := hc f.call f.backendGroup _ hsent.nonempty hsent.distinct
  obtain ⟨res, status, hg, harranged⟩ := hserves.groupForward hsent.distinct
  refine ⟨hserves.ids, ?_⟩
  cases hh.ran f hf with
  | failed h => cases hg.symm.trans h
  | ok h =>
    obtain ⟨hres, hsends⟩ := Prod.mk.inj (h.symm.trans hg)
    rw [Except.ok.inj hres]
    refine ⟨hsends, status, fun hsort => harranged ?_⟩
    rw [← hserves.ids.length_eq, length_map, map_map]
    exact hsort

theorem sent_eq (hh : Handled cfg env reqs out) (hsize : 0 < cfg.maxUpstreamBatchSize)
    (hc : env.Compliant answers) : out.sent = out.log.map Forwarded.elems := by
  rw [Outcome.sent, map_eq_flatMap]
  apply flatMap_congr
  intro f hf
  rw [(hh.forwarded hsize hc hf).2.1]
  rfl

theorem nodup_wire_of_sortable {b : List BatchElem} (h : Sortable b) :
    (b.map fun e => (wire e.req).id).Nodup := by
  rcases h with hone | ho
  · obtain ⟨e, rfl⟩ := length_eq_one_iff.mp hone
    exact nodup_singleton _
  · have hnd : ((b.map fun e => e.req.id).map fun id =>
        pos (b.map fun e => e.req.id) (escapeHTML id)).Nodup := ho ▸ nodup_range
    rw [map_map] at hnd
    have hnd' : ((b.map fun e => (wire e.req).id).map (pos (b.map fun e => e.req.id))).Nodup := by
      rw [map_map]
      exact hnd
    exact hnd'.of_map

theorem routed_of_sortable (hsize : 0 < cfg.maxUpstreamBatchSize) (hc : env.Compliant answers)
    (hout : handleBatchRPC cfg env reqs = .ok out) (hsort : ∀ b ∈ out.sent, Sortable b) :
    Routed cfg env answers reqs out := by
  have hh := handled_of_handleBatchRPC hsize hout
  have hsent := sent_eq hh hsize hc
  rw [hsent] at hsort
  constructor
  case length => exact hh.length
  case answered =>
    intro i raw hraw
    cases hpre : precheck cfg env i raw with
    | error res => exact ⟨res, hh.rejected i raw res hraw hpre, .rejected (local_of_precheck hpre)⟩
    | ok admitted =>
      obtain ⟨req, group⟩ := admitted
      cases hlookup : env.lookup ⟨req, i⟩ with
      | some res =>
        exact ⟨res, hh.cached i raw req group res hraw hpre hlookup,
          .cached hpre hlookup (id_of_lookup hlookup)⟩
      | none =>
        obtain ⟨f, hf, he⟩ := mem_flatMap.mp (hh.missed i raw req group hraw hpre hlookup)
        obtain ⟨j, hj⟩ := mem_iff_getElem?.mp he
        obtain ⟨hids, -, status, hres⟩ := hh.forwarded hsize hc hf
        have hreq : (f.elems.map BatchElem.req)[j]? = some req := by
          rw [getElem?_map, hj]
          rfl
        obtain ⟨answer, ha, hid⟩ := exists_getElem?_of_forall₂ hids hreq
        refine ⟨stamp status answer, ?_, .backend hpre hf hj ha hid⟩
        apply hh.written f hf j _ _ hj
        rw [hres (hsort _ (mem_map_of_mem hf)), getElem?_map, ha]
        rfl
  case size =>
    rw [hsent]
    exact forall_mem_map.mpr fun f hf => (hh.sent hsize hf).size
  case distinct =>
    rw [hsent]
    refine forall_mem_map.mpr fun f hf => ⟨map_map ▸ (hh.sent hsize hf).distinct, ?_⟩
    exact nodup_wire_of_sortable (hsort _ (mem_map_of_mem hf))
  case once =>
    intro i raw req group hraw hpre hlookup
    have hmem := hh.missed i raw req group hraw hpre hlookup
    rw [hsent, ← flatMap_def]
    exact count_eq_one_of_mem hh.once (mem_map_of_mem (f := BatchElem.index) hmem)

/-- For every batch, cache, outcome of the limits and order of the answers: no panic, and if the
answers of every sent list are told apart, the batch is routed. For one list of two or more
requests, all answers in all orders go back to their requests exactly if its IDs are orderly. -/
theorem batches_answer_right (cfg : ServerConfig) (hsize : 0 < cfg.maxUpstreamBatchSize)
    (env : Env) (answers : AnswerFn) (hc : env.Compliant answers)
    (reqs : List (Option RPCReq)) :
    handleBatchRPC cfg env reqs ≠ .error .panic ∧
    (∀ out, handleBatchRPC cfg env reqs = .ok out → (∀ b ∈ out.sent, Sortable b) →
      Routed cfg env answers reqs out) ∧
    ∀ batch : List RPCReq, (batch.map RPCReq.id).Nodup → 2 ≤ batch.length →
      ((∀ (sorter : Sorter RPCRes) (given : List RPCRes) (body : Body), Answers batch given →
        Answered given body → doForward sorter batch (.reply 200 body) = .ok given) ↔
        Orderly (batch.map RPCReq.id)) :=
  ⟨ne_panic_of_compliant hsize hc,
    fun _ hout hsort => routed_of_sortable hsize hc hout hsort,
    fun _ hnd hlen => doForward_arranges_iff hnd hlen⟩

end Routing

def trueAnswers : AnswerFn := fun _ _ reqs => reqs.map fun req => trueFor req.id

def bodyOf (answers : List RPCRes) : Body :=
  match answers with
  | [res] => .object res
  | _ => .array (answers.map .object)

def answeringEnv : Env :=
  mainEnv fun call group reqs =>
    [⟨true, [.reply 200 (bodyOf (trueAnswers call group reqs))]⟩]

theorem answeringEnv_compliant : answeringEnv.Compliant trueAnswers := by
  intro call group reqs hne hnd
  constructor
  case ids =>
    simp only [Answers, Env.answered, trueAnswers, map_map, forall₂_map_right_iff, forall₂_same]
    exact fun _ _ => rfl
  case reply =>
    refine ⟨[], _, [], 200, _, [], rfl, by simp, rfl, rfl, .inl rfl, ?_⟩
    unfold Env.answered
    generalize trueAnswers call group (reqs.map wire) = answers
    unfold bodyOf
    split
    · exact .single rfl
    next hlen =>
      refine .batch (Perm.refl _) fun hone => ?_
      obtain ⟨res, rfl⟩ := length_eq_one_iff.mp hone
      exact hlen res rfl

instance (b : List BatchElem) : Decidable (Sortable b) :=
  inferInstanceAs (Decidable (_ ∨ _))

theorem batches_answer_right_sample :
    ∃ out, handleBatchRPC mainConfig answeringEnv
        [some (balanceOf [49]), none, some (balanceOf [50]), some (balanceOf [49])] =
          .ok out ∧
      Routed mainConfig answeringEnv trueAnswers
        [some (balanceOf [49]), none, some (balanceOf [50]), some (balanceOf [49])]
        out := by
  refine ⟨_, rfl, (batches_answer_right mainConfig (by decide) answeringEnv trueAnswers
    answeringEnv_compliant _).2.1 _ rfl ?_⟩
  decide +kernel

/-- With the IDs `1`, `2` and `"<a"`, the third answer comes back at the second place. -/
theorem escaped_id_misrouted :
    answeringEnv.Compliant trueAnswers ∧
    responseIDs answeringEnv [some (balanceOf [49]), some (balanceOf [50]),
      some (balanceOf [34, 60, 97, 34])] =
        .ok [some [49], some (escapeHTML [34, 60, 97, 34]), some [50]] :=
  ⟨answeringEnv_compliant, by decide +kernel⟩

end Proxyd
