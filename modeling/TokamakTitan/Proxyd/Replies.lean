import TokamakTitan.Proxyd.Backend

/-! What forwarding makes of one reply: when its elements go back under the IDs of the requests, and
when to the requests that they answer. -/
namespace Proxyd
open Checked List
open KeySort (Sorter)
open Checked (bind_eq_ok)

section Positions

variable {ids : List RawMessage}

theorem pos_getElem (hnd : ids.Nodup) {j : ℕ} (h : j < ids.length) : pos ids ids[j] = j := by
  rw [pos, if_pos (getElem_mem h), hnd.idxOf_getElem]

theorem pos_lt (hne : ids ≠ []) (id : RawMessage) : pos ids id < ids.length := by
  unfold pos
  split
  next h => exact idxOf_lt_length_iff.mpr h
  · exact length_pos_iff.mpr hne

theorem pairwise_pos (hnd : ids.Nodup) : ids.Pairwise fun a b => pos ids a < pos ids b := by
  rw [pairwise_iff_getElem]
  intro i j hi hj hij
  rwa [pos_getElem hnd hi, pos_getElem hnd hj]

theorem eq_of_perm_of_pos {xs : List RawMessage} (hnd : ids.Nodup) (h : xs.Perm ids)
    (hxs : xs.Pairwise fun a b => pos ids a ≤ pos ids b) : xs = ids := by
  have hle : ids.Pairwise fun a b => pos ids a ≤ pos ids b :=
    (pairwise_pos hnd).imp fun h => h.le
  apply Perm.eq_of_pairwise _ hxs hle h
  intro a b ha hb hab hba
  have hinj := inj_on_of_nodup_map (f := pos ids) (l := ids)
    (pairwise_map.mpr ((pairwise_pos hnd).imp fun h => h.ne))
  exact hinj (h.mem_iff.mp ha) hb (Nat.le_antisymm hab hba)

end Positions

theorem mapM_id_eq_some {α : Type} {xs : List (Option α)} {ys : List α} :
    xs.mapM id = some ys ↔ xs = ys.map some := by
  induction xs generalizing ys with
  | nil => cases ys <;> simp
  | cons x xs ih =>
    cases x with
    | none => cases ys <;> simp
    | some => cases ys <;> simp [Option.bind_eq_some_iff, ih, and_comm]

variable {res : List (Option RPCRes)} {sorter : Sorter RPCRes} {reqs : List RPCReq}

section Sorting

variable (hnd : (reqs.map RPCReq.id).Nodup)
include hnd

theorem sortBatchRPCResponse_eq_ok {out : List RPCRes} :
    sortBatchRPCResponse sorter reqs res = .ok out ↔
      ∃ rs, res = rs.map some ∧ out = sorter.sort (fun r => pos (reqs.map RPCReq.id) r.id) rs := by
  unfold sortBatchRPCResponse
  simp only [hnd, not_true_eq_false, if_false]
  split
  next rs hrs =>
    rw [mapM_id_eq_some] at hrs
    subst hrs
    constructor
    · intro h
      exact ⟨rs, rfl, (Except.ok.inj h).symm⟩
    · rintro ⟨rs', hrs, rfl⟩
      rw [map_injective_iff.mpr (Option.some_injective _) hrs]
  next hnone =>
    constructor
    · rintro ⟨⟩
    · rintro ⟨rs, rfl, -⟩
      rw [mapM_id_eq_some.mpr rfl] at hnone
      cases hnone

theorem exists_of_sort_ne_panic (h : sortBatchRPCResponse sorter reqs res ≠ .error .panic) :
    ∃ rs : List RPCRes, res = rs.map some := by
  unfold sortBatchRPCResponse at h
  simp only [hnd, not_true_eq_false, if_false] at h
  split at h
  next rs hrs => exact ⟨rs, mapM_id_eq_some.mp hrs⟩
  · exact absurd rfl h

theorem sortBatchRPCResponse_some (rs : List RPCRes) :
    sortBatchRPCResponse sorter reqs (rs.map some) =
      .ok (sorter.sort (fun r => pos (reqs.map RPCReq.id) r.id) rs) :=
  (sortBatchRPCResponse_eq_ok hnd).mpr ⟨rs, rfl, rfl⟩

theorem ids_sort_iff (rs : List RPCRes) :
    (sorter.sort (fun r => pos (reqs.map RPCReq.id) r.id) rs).map RPCRes.id =
        reqs.map RPCReq.id ↔
      (rs.map RPCRes.id).Perm (reqs.map RPCReq.id) := by
  have hperm := (sorter.perm (fun r => pos (reqs.map RPCReq.id) r.id) rs).map RPCRes.id
  constructor
  · intro h
    rw [h] at hperm
    exact hperm.symm
  · intro h
    apply eq_of_perm_of_pos hnd (hperm.trans h)
    exact pairwise_map.mpr (sorter.sorted _ rs)

end Sorting

variable {status : ℕ}

section Capture

variable {rs : List RPCRes}

def stamp (status : ℕ) (r : RPCRes) : RPCRes :=
  if status = 200 then r
  else { r with error := r.error.map fun e => { e with httpErrorCode := status } }

@[simp] theorem stamp_id (status : ℕ) (r : RPCRes) : (stamp status r).id = r.id := by
  unfold stamp
  split <;> rfl

theorem map_stamp_id (status : ℕ) (rs : List RPCRes) :
    (rs.map (stamp status)).map RPCRes.id = rs.map RPCRes.id := by
  rw [map_map]
  exact map_congr_left fun r _ => stamp_id status r

theorem map_stamp_ok (rs : List RPCRes) : rs.map (stamp 200) = rs := map_id rs

theorem captureStatus_eq_ok {x y : Option RPCRes} (h : captureStatus status x = .ok y) :
    ∃ r, x = some r ∧ r.error.isSome = true := by
  unfold captureStatus at h
  split at h
  next r =>
    split at h
    next e he => exact ⟨r, rfl, by rw [he]; rfl⟩
    · cases h
  · cases h

theorem captureStatus_some (hs : status ≠ 200) {r : RPCRes} (h : r.error.isSome = true) :
    captureStatus status (some r) = .ok (some (stamp status r)) := by
  obtain ⟨e, he⟩ := Option.isSome_iff_exists.mp h
  simp only [captureStatus, he, stamp, if_neg hs]
  rfl

theorem captureStatuses_some (h : status ≠ 200 → ∀ r ∈ rs, r.error.isSome = true) :
    captureStatuses status (rs.map some) = .ok ((rs.map (stamp status)).map some) := by
  unfold captureStatuses
  split
  next hs =>
    subst hs
    rw [map_stamp_ok]
  next hs =>
    rw [mapM_eq_ok, forall₂_map_left_iff, forall₂_map_right_iff,
      forall₂_map_right_iff, forall₂_same]
    exact fun r hr => captureStatus_some hs (h hs r hr)

theorem mapM_captureStatus_eq_ok {res' : List (Option RPCRes)}
    (h : res.mapM (captureStatus status) = .ok res') :
    ∃ rs : List RPCRes, res = rs.map some ∧ ∀ r ∈ rs, r.error.isSome = true := by
  rw [mapM_eq_ok] at h
  induction h with
  | nil => exact ⟨[], rfl, by simp⟩
  | cons hxy _ ih =>
    obtain ⟨rs, rfl, herr⟩ := ih
    obtain ⟨r, rfl, hr⟩ := captureStatus_eq_ok hxy
    exact ⟨r :: rs, rfl, forall_mem_cons.mpr ⟨hr, herr⟩⟩

theorem captureStatuses_eq_ok {rs' : List RPCRes}
    (h : captureStatuses status res = .ok (rs'.map some)) :
    ∃ rs : List RPCRes, res = rs.map some ∧
      (status ≠ 200 → ∀ r ∈ rs, r.error.isSome = true) ∧ rs' = rs.map (stamp status) := by
  by_cases hs : status = 200
  · rw [captureStatuses, if_pos hs] at h
    subst hs
    exact ⟨rs', Except.ok.inj h, fun hne => absurd rfl hne, (map_stamp_ok rs').symm⟩
  · have hmap := h
    rw [captureStatuses, if_neg hs] at hmap
    obtain ⟨rs, rfl, herr⟩ := mapM_captureStatus_eq_ok hmap
    rw [captureStatuses_some fun _ => herr] at h
    have hrs := map_injective_iff.mpr (Option.some_injective RPCRes) (Except.ok.inj h)
    exact ⟨rs, rfl, fun _ => herr, hrs.symm⟩

theorem captureStatus_ne_err {x : Option RPCRes} {e : ForwardErr} :
    captureStatus status x ≠ .error (.err e) := by
  unfold captureStatus
  split
  · split <;> rintro ⟨⟩
  · rintro ⟨⟩

theorem captureStatuses_ne_err {e : ForwardErr} : captureStatuses status res ≠ .error (.err e) := by
  unfold captureStatuses
  split
  · rintro ⟨⟩
  · induction res with
    | nil => rintro ⟨⟩
    | cons x res ih =>
      rw [mapM_cons]
      intro h
      rcases bind_eq_error.mp h with h | ⟨y, -, h⟩
      · exact captureStatus_ne_err h
      · rcases bind_eq_error.mp h with h | ⟨ys, -, h⟩
        · exact ih h
        · cases h

end Capture

variable {body : Body}

section Replies

variable {attempt : Attempt}

/-- A reply that forwarding turns into an error: of another status, undecodable, or of the wrong
length. -/
def Rejected (reqs : List RPCReq) : Attempt → Prop
  | .failed => True
  | .reply status body => (status ≠ 200 ∧ status ≠ 400) ∨
    ∀ res, unmarshalReply reqs body = .ok res → reqs.length ≠ res.length

/-- A reply with one response for every request, under its ID, with an error if the status is one.
-/
def Echoes (reqs : List RPCReq) : Attempt → Prop
  | .failed => False
  | .reply status body => ∃ rs : List RPCRes, unmarshalReply reqs body = .ok (rs.map some) ∧
    (status ≠ 200 → ∀ r ∈ rs, r.error.isSome = true) ∧
    (rs.map RPCRes.id).Perm (reqs.map RPCReq.id)

theorem unmarshalReply_ne_panic : unmarshalReply reqs body ≠ .error .panic := by
  unfold unmarshalReply
  split
  · split <;> rintro ⟨⟩
  · split
    · rintro ⟨⟩
    · split <;> rintro ⟨⟩

theorem doForward_of_rejected (sorter : Sorter RPCRes) (h : Rejected reqs attempt) :
    ∃ e, doForward sorter reqs attempt = .error (.err e) := by
  cases attempt with
  | failed => exact ⟨.request, rfl⟩
  | reply status body =>
    by_cases hs : status ≠ 200 ∧ status ≠ 400
    · exact ⟨.responseCode status, if_pos hs⟩
    · have hlen := h.resolve_left hs
      rw [doForward, if_neg hs]
      cases hu : unmarshalReply reqs body with
      | error f =>
        cases f with
        | panic => exact absurd hu unmarshalReply_ne_panic
        | err e => exact ⟨e, rfl⟩
      | ok res => exact ⟨.unexpectedJSONRPC, if_pos (hlen res hu)⟩

theorem doForward_reply (hs : ¬ (status ≠ 200 ∧ status ≠ 400))
    (hu : unmarshalReply reqs body = .ok res) (hlen : reqs.length = res.length) :
    doForward sorter reqs (.reply status body) =
      captureStatuses status res >>= sortBatchRPCResponse sorter reqs := by
  rw [doForward, if_neg hs, hu]
  exact if_neg (not_not.mpr hlen)

theorem length_of_perm_ids {rs : List RPCRes}
    (h : (rs.map RPCRes.id).Perm (reqs.map RPCReq.id)) : reqs.length = (rs.map some).length := by
  have := h.length_eq
  simp only [length_map] at this ⊢
  exact this.symm

theorem doForward_of_echoes (hnd : (reqs.map RPCReq.id).Nodup) (h : Echoes reqs attempt)
    (hr : ¬ Rejected reqs attempt) :
    ∃ out, doForward sorter reqs attempt = .ok out ∧
      out.map RPCRes.id = reqs.map RPCReq.id := by
  cases attempt with
  | failed => exact h.elim
  | reply =>
    obtain ⟨rs, hu, herr, hperm⟩ := h
    rw [doForward_reply (fun hs => hr (.inl hs)) hu (length_of_perm_ids hperm),
      captureStatuses_some herr, ok_bind, sortBatchRPCResponse_some hnd]
    refine ⟨_, rfl, (ids_sort_iff hnd _).mpr ?_⟩
    rwa [map_stamp_id]

theorem echoes_of_doForward (hnd : (reqs.map RPCReq.id).Nodup) (hr : ¬ Rejected reqs attempt)
    (hpanic : doForward sorter reqs attempt ≠ .error .panic)
    (hids : ∀ out, doForward sorter reqs attempt = .ok out →
      out.map RPCRes.id = reqs.map RPCReq.id) : Echoes reqs attempt := by
  cases attempt with
  | failed => exact absurd trivial hr
  | reply status =>
    simp only [Rejected, not_or, not_forall, not_not] at hr
    obtain ⟨hs, res, hu, hlen⟩ := hr
    rw [doForward_reply hs hu hlen] at hpanic hids
    cases hcap : captureStatuses status res with
    | error f =>
      cases f with
      | panic =>
        rw [hcap] at hpanic
        exact absurd rfl hpanic
      | err => exact absurd hcap captureStatuses_ne_err
    | ok =>
      rw [hcap] at hpanic hids
      obtain ⟨rs', rfl⟩ := exists_of_sort_ne_panic hnd hpanic
      obtain ⟨rs, rfl, herr, rfl⟩ := captureStatuses_eq_ok hcap
      refine ⟨rs, hu, herr, ?_⟩
      have hperm := (ids_sort_iff hnd _).mp (hids _ (sortBatchRPCResponse_some hnd _))
      rwa [map_stamp_id] at hperm

theorem doForward_isolates_iff (hnd : (reqs.map RPCReq.id).Nodup) :
    (doForward sorter reqs attempt ≠ .error .panic ∧
      ∀ out, doForward sorter reqs attempt = .ok out →
        out.map RPCRes.id = reqs.map RPCReq.id) ↔
      Rejected reqs attempt ∨ Echoes reqs attempt := by
  constructor
  · rintro ⟨hpanic, hids⟩
    by_cases hr : Rejected reqs attempt
    · exact .inl hr
    · exact .inr (echoes_of_doForward hnd hr hpanic hids)
  · intro h
    by_cases hr : Rejected reqs attempt
    · obtain ⟨e, he⟩ := doForward_of_rejected sorter hr
      rw [he]
      exact ⟨by rintro ⟨⟩, by rintro out ⟨⟩⟩
    · obtain ⟨out, hout, hids⟩ := doForward_of_echoes hnd (h.resolve_left hr) hr
      rw [hout]
      refine ⟨by rintro ⟨⟩, fun out' h' => ?_⟩
      cases h'
      exact hids

end Replies

variable {answers : List RPCRes}

/-- The IDs of a batch are found again in the texts that are sent: each at its own place. -/
def Orderly (ids : List RawMessage) : Prop :=
  ids.map (fun id => pos ids (escapeHTML id)) = List.range ids.length

instance (ids : List RawMessage) : Decidable (Orderly ids) :=
  inferInstanceAs (Decidable (_ = _))

def Answers (reqs : List RPCReq) (answers : List RPCRes) : Prop :=
  List.Forall₂ (fun req res => res.id = (wire req).id) reqs answers

/-- The answer itself for a single request, and otherwise all of them in any order. -/
inductive Answered (answers : List RPCRes) : Body → Prop
  | single {res : RPCRes} (h : answers = [res]) : Answered answers (.object res)
  | batch {l : List RPCRes} (h : l.Perm answers) (hlen : answers.length ≠ 1) :
      Answered answers (.array (l.map .object))

theorem mapM_decode_object (l : List RPCRes) :
    (l.map Elem.object).mapM Elem.decode = some (l.map some) := by
  induction l with
  | nil => rfl
  | cons r l ih =>
    rw [map_cons, mapM_cons, ih]
    rfl

variable (sorter : Sorter RPCRes)

theorem doForward_unmarshalled {l : List RPCRes} (hnd : (reqs.map RPCReq.id).Nodup)
    (hlen : reqs.length = l.length) (hu : unmarshalReply reqs body = .ok (l.map some))
    (hs : ¬ (status ≠ 200 ∧ status ≠ 400)) (herr : status ≠ 200 → ∀ r ∈ l, r.error.isSome = true) :
    doForward sorter reqs (.reply status body) =
      .ok (sorter.sort (fun r => pos (reqs.map RPCReq.id) r.id) (l.map (stamp status))) := by
  rw [doForward_reply hs hu (by rw [hlen, length_map]), captureStatuses_some herr]
  exact sortBatchRPCResponse_some hnd _

theorem unmarshalReply_array (hone : reqs.length ≠ 1) (l : List RPCRes) :
    unmarshalReply reqs (.array (l.map .object)) = .ok (l.map some) := by
  rw [unmarshalReply, if_neg hone, Body.batch, mapM_decode_object]

/-- The statuses of an answer: of success, or of an error that every response carries. -/
def AnswerStatus (answers : List RPCRes) (status : ℕ) : Prop :=
  status = 200 ∨ status = 400 ∧ ∀ r ∈ answers, r.error.isSome = true

theorem doForward_answered (hnd : (reqs.map RPCReq.id).Nodup) (ha : Answers reqs answers)
    (h : Answered answers body) (hs : AnswerStatus answers status) :
    ∃ l : List RPCRes, l.Perm answers ∧ doForward sorter reqs (.reply status body) =
      .ok (sorter.sort (fun r => pos (reqs.map RPCReq.id) r.id) (l.map (stamp status))) := by
  have hlen := ha.length_eq
  have hstatus : ¬ (status ≠ 200 ∧ status ≠ 400) := by
    rintro ⟨h200, h400⟩
    rcases hs with h | h
    · exact h200 h
    · exact h400 h.1
  have herr : status ≠ 200 → ∀ r ∈ answers, r.error.isSome = true :=
    fun hne => (hs.resolve_left hne).2
  cases h with
  | @single res h =>
    subst h
    exact ⟨[res], Perm.refl _, doForward_unmarshalled sorter hnd hlen (if_pos hlen) hstatus herr⟩
  | @batch l h hone =>
    refine ⟨l, h, doForward_unmarshalled sorter hnd (hlen.trans h.length_eq.symm) ?_ hstatus ?_⟩
    · exact unmarshalReply_array (hlen ▸ hone) l
    · exact fun hne r hr => herr hne r (h.mem_iff.mp hr)

theorem map_id_answers (ha : Answers reqs answers) :
    answers.map RPCRes.id = (reqs.map RPCReq.id).map escapeHTML := by
  induction ha with
  | nil => rfl
  | cons h _ ih =>
    rw [map_cons, map_cons, map_cons, ih, h]
    rfl

theorem map_pos_answers (ha : Answers reqs answers) :
    answers.map (fun r => pos (reqs.map RPCReq.id) r.id) =
      (reqs.map RPCReq.id).map fun id => pos (reqs.map RPCReq.id) (escapeHTML id) := by
  have h := congrArg (map (pos (reqs.map RPCReq.id))) (map_id_answers ha)
  rw [map_map, map_map] at h
  exact h

theorem pairwise_of_orderly (ha : Answers reqs answers) (h : Orderly (reqs.map RPCReq.id)) :
    answers.Pairwise fun a b =>
      pos (reqs.map RPCReq.id) a.id < pos (reqs.map RPCReq.id) b.id := by
  apply pairwise_map.mp
  rw [map_pos_answers ha, h]
  exact pairwise_lt_range

theorem doForward_arranges (hnd : (reqs.map RPCReq.id).Nodup) (ha : Answers reqs answers)
    (h : Answered answers body) (hs : AnswerStatus answers status)
    (ho : answers.length = 1 ∨ Orderly (reqs.map RPCReq.id)) :
    doForward sorter reqs (.reply status body) = .ok (answers.map (stamp status)) := by
  obtain ⟨l, hl, hf⟩ := doForward_answered sorter hnd ha h hs
  rw [hf]
  congr 1
  apply sorter.sort_eq (hl.map _)
  rw [pairwise_map]
  simp only [stamp_id]
  rcases ho with hone | ho
  · obtain ⟨r, rfl⟩ := length_eq_one_iff.mp hone
    exact pairwise_singleton _ r
  · exact pairwise_of_orderly ha ho

def numbered (n : ℕ) : List RPCReq → List RPCRes
  | [] => []
  | req :: reqs =>
    { jsonrpc := jsonrpcVersion
      result := .arr (List.replicate n .null)
      id := (wire req).id } :: numbered (n + 1) reqs

theorem answers_numbered (n : ℕ) (reqs : List RPCReq) : Answers reqs (numbered n reqs) := by
  induction reqs generalizing n with
  | nil => exact .nil
  | cons req reqs ih => exact .cons rfl (ih (n + 1))

theorem le_of_mem_numbered {n : ℕ} {r : RPCRes} (h : r ∈ numbered n reqs) :
    ∃ m, n ≤ m ∧ r.result = .arr (replicate m .null) := by
  induction reqs generalizing n with
  | nil => cases h
  | cons req reqs ih =>
    cases h with
    | head => exact ⟨n, le_rfl, rfl⟩
    | tail _ h =>
      obtain ⟨m, hm, hr⟩ := ih h
      exact ⟨m, by omega, hr⟩

theorem nodup_numbered (n : ℕ) (reqs : List RPCReq) : (numbered n reqs).Nodup := by
  induction reqs generalizing n with
  | nil => exact nodup_nil
  | cons req reqs ih =>
    refine nodup_cons.mpr ⟨fun h => ?_, ih (n + 1)⟩
    obtain ⟨m, hm, hr⟩ := le_of_mem_numbered h
    have hlen := congrArg length (Json.arr.inj hr)
    rw [length_replicate, length_replicate] at hlen
    omega

theorem doForward_arranges_iff (hnd : (reqs.map RPCReq.id).Nodup) (hlen : 2 ≤ reqs.length) :
    (∀ (sorter : Sorter RPCRes) (answers : List RPCRes) (body : Body), Answers reqs answers →
      Answered answers body → doForward sorter reqs (.reply 200 body) = .ok answers) ↔
      Orderly (reqs.map RPCReq.id) := by
  constructor
  · intro h
    have ha := answers_numbered 0 reqs
    have hsort : ∀ (s : Sorter RPCRes) (l : List RPCRes), l.Perm (numbered 0 reqs) →
        s.sort (fun r => pos (reqs.map RPCReq.id) r.id) l = numbered 0 reqs := by
      intro s l hl
      have hone : (numbered 0 reqs).length ≠ 1 := by
        rw [← ha.length_eq]
        omega
      have hf := h s _ _ ha (.batch hl hone)
      rw [doForward_unmarshalled s hnd (ha.length_eq.trans hl.length_eq.symm)
        (unmarshalReply_array (by omega) l) (fun hs => hs.1 rfl) (fun hne => absurd rfl hne),
        map_stamp_ok] at hf
      exact Except.ok.inj hf
    have hlt := KeySort.pairwise_lt_of_sort_eq (nodup_numbered 0 reqs) hsort
    have hkeys := pairwise_map.mpr hlt
    rw [map_pos_answers ha] at hkeys
    have hrange := KeySort.eq_range_of_pairwise (fun x hx => ?_) hkeys
    · rw [Orderly, hrange, length_map]
    · obtain ⟨id, -, rfl⟩ := mem_map.mp hx
      rw [length_map]
      apply pos_lt
      apply ne_nil_of_length_pos
      rw [length_map]
      omega
  · intro ho sorter answers body ha h
    rw [doForward_arranges sorter hnd ha h (.inl rfl) (.inr ho), map_stamp_ok]

end Proxyd
