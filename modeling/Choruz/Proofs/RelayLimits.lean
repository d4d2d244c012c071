import Choruz.Pipeline
import Choruz.Proofs.Relay

/-!
# The size limits of host and client

The host measures a response in bytes and the relay client in whole chunks: 43 chunks are the
largest response the host accepts and one more than the client does.  Requests are measured the
same way on both ends.  Frames arrive in order, with those of other requests in between; the
frames still to come say where a request stands.
-/

namespace Choruz.Relay

open Relational Reassembly Pending

variable {piece : Bytes} {arrivals : List RelayFrame} {k : ℕ}

theorem bodyFrames_drop {rid : String} {pieces : List Bytes} (h : pieces[k]? = some piece) :
    bodyFrames rid (pieces.drop k) k =
      .body rid k piece :: bodyFrames rid (pieces.drop (k + 1)) (k + 1) := by
  obtain ⟨hk, rfl⟩ := getElem?_eq_some_iff.1 h
  rw [List.drop_eq_getElem_cons hk]
  rfl

theorem foldl_of_filter {σ : Type*} {receive : σ → RelayFrame → σ} {P : σ → RelayFrame → Prop}
    {rid : String} {Progress : List RelayFrame → σ → Prop}
    (hown : ∀ s f rest, f.requestId = rid → P s f → Progress (f :: rest) s →
      Progress rest (receive s f)) (ho : ∀ s f rest, f.requestId ≠ rid → P s f → Progress rest s →
      Progress rest (receive s f)) :
    ∀ (arrivals : List RelayFrame) (s : σ), Along receive P s arrivals →
      Progress (arrivals.filter (·.requestId = rid)) s → Progress [] (arrivals.foldl receive s)
  | [], s, _, h => h
  | f :: arrivals, s, ⟨hP, ha⟩, h => by
    refine foldl_of_filter hown ho arrivals (receive s f) ha ?_
    by_cases hf : f.requestId = rid
    · rw [List.filter_cons_of_pos (by simpa using hf)] at h
      exact hown s f _ hf hP h
    · rw [List.filter_cons_of_neg (by simpa using hf)] at h
      exact ho s f _ hf hP h

namespace RelayClient

variable {c c' : RelayClient} {requestId : String} {response : HttpResponse}
  {rest : List RelayFrame} {frame : RelayFrame} {p : Pending}

/-- Frames of other requests do not end the connection. -/
def OtherAccepted (requestId : String) (c : RelayClient) (frame : RelayFrame) : Prop :=
  frame.requestId ≠ requestId → ∃ c', c.receiveResponse frame = .ok c'

/-- Where a request stands, by the frames of its response that are still to come. -/
inductive Progress (requestId : String) (response : HttpResponse) :
    List RelayFrame → RelayClient → Prop where
  | waiting {c : RelayClient} (hentry : c.pending.lookup requestId = some { requestId }) :
    Progress requestId response (responseFrames requestId response) c
  | assembling {c : RelayClient} {k : ℕ} {p : Pending} (hk : k < response.pieces.length)
    (hentry : c.pending.lookup requestId = some p) (hstatus : p.status = some response.status)
    (hchunks : p.chunks = firstSlots response.pieces k) (hreceived : p.received = k) :
    Progress requestId response (bodyFrames requestId (response.pieces.drop k) k) c
  | done {c : RelayClient} {r : RelayResponse} (hreply : (requestId, .ok r) ∈ c.replies)
    (hstatus : r.status = response.status) (hbody : r.body = response.body) :
    Progress requestId response [] c

theorem Progress.spares (h : Progress requestId response rest c)
    (hspr : Spares requestId c c') : Progress requestId response rest c' := by
  cases h with
  | waiting he => exact .waiting (hspr.entry.trans he)
  | assembling hk he hs hc hr =>
    exact .assembling hk (hspr.entry.trans he) hs hc hr
  | done hrp hs hb => exact .done ((hspr.replies _).2 hrp) hs hb

theorem Progress.complete (he : c.pending.lookup requestId = some p)
    (hs : p.status = some response.status)
    (hc : p.chunks = firstSlots response.pieces response.pieces.length) :
    Progress requestId response [] (c.complete requestId) := by
  obtain ⟨-, hr⟩ := complete_of_lookup he
  have hrp : (requestId, .ok p.answer) ∈ (c.complete requestId).replies := by
    rw [hr]
    exact mem_append_right _ (mem_singleton_self _)
  refine .done hrp (by simp [answer, hs]) ?_
  simp [answer, hc, taken_firstSlots]
  exact response.flatten_pieces

theorem Progress.header (hf : response.pieces.length * chunkBytes ≤ maxBodyBytes)
    (he : c.pending.lookup requestId = some { requestId }) :
    Progress requestId response (bodyFrames requestId response.pieces)
      (c.receive (response.header requestId)) := by
  have hs : ¬ 2 ^ 16 ≤ response.status.toNat := by
    have := response.status.toNat_lt
    omega
  have hc : ¬ maxBodyBytes < min (response.pieces.length * chunkBytes) (2 ^ 64 - 1) := by
    omega
  have hl := lookup_put_self c.pending (k := requestId)
    (a := begin { requestId } response.status.toNat (headerObject response.headers)
      response.pieces.length) rfl
  unfold receive
  simp only [HttpResponse.header, receiveResponse, hs, hc, if_false, he]
  split
  · next hz =>
    have hn := List.length_eq_zero_iff.1 hz
    have hd : Progress requestId response []
        (RelayClient.complete { c with pending := c.pending.put (begin { requestId }
          response.status.toNat (headerObject response.headers) response.pieces.length) }
          requestId) := by
      refine Progress.complete hl (by simp [begin]) ?_
      simp [begin, hn, firstSlots]
    simpa [hn, bodyFrames] using hd
  · next hp =>
    refine .assembling (k := 0) (by omega) hl (by simp [begin]) ?_ rfl
    exact (firstSlots_zero _).symm

theorem Progress.body
    (hpc : response.pieces[k]? = some piece) (he : c.pending.lookup requestId = some p)
    (hs : p.status = some response.status)
    (hc : p.chunks = firstSlots response.pieces k) (hr : p.received = k) :
    Progress requestId response (bodyFrames requestId (response.pieces.drop (k + 1)) (k + 1))
      (c.receive (.body requestId k piece)) := by
  obtain ⟨hk, -⟩ := getElem?_eq_some_iff.1 hpc
  have hkey := key_of_lookup he
  have hsl : p.chunks[k]? = some none := by rw [hc, getElem?_firstSlots hk]
  have hf : (p.fill k none piece).chunks = firstSlots response.pieces (k + 1) := by
    simp [fill, hc, set_firstSlots hpc]
  have hcnt : (p.fill k none piece).received = k + 1 := by simp [fill, hr]
  have hlo := lookup_put_self c.pending (a := p.fill k none piece) hkey
  unfold receive
  simp [receiveResponse, he, hsl]
  have hlen : (p.fill k none piece).chunks.length = response.pieces.length := by
    rw [hf, length_firstSlots hk]
  split
  · next hfu =>
    have hl : k + 1 = response.pieces.length := by rw [← hlen, ← hfu, hcnt]
    rw [hl] at hf
    rw [hl, List.drop_length]
    exact Progress.complete hlo hs hf
  · next hp =>
    exact .assembling (by omega) hlo hs hf hcnt

theorem Progress.own (hf : response.pieces.length * chunkBytes ≤ maxBodyBytes)
    (h : Progress requestId response (frame :: rest) c) :
    Progress requestId response rest (c.receive frame) := by
  generalize hfrs : frame :: rest = frames at h
  cases h with
  | waiting he =>
    cases hfrs
    exact Progress.header hf he
  | @assembling _ k p hk he hs hc hr =>
    have hp := getElem?_eq_getElem hk
    rw [bodyFrames_drop hp] at hfrs
    cases hfrs
    exact Progress.body hp he hs hc hr
  | done => cases hfrs

theorem Progress.other (ho : frame.requestId ≠ requestId) (ha : OtherAccepted requestId c frame)
    (h : Progress requestId response rest c) :
    Progress requestId response rest (c.receive frame) := by
  obtain ⟨c', hc'⟩ := ha ho
  unfold receive
  rw [hc']
  exact h.spares (spares_of_receiveResponse ho hc')

/-- The responses of whole chunks that fit are returned. -/
theorem response_returned (hs : response.body.length ≤ maxBodyBytes / chunkBytes * chunkBytes)
    (hent : c.pending.lookup requestId = some { requestId })
    (hfrs : arrivals.filter (·.requestId = requestId) = responseFrames requestId response)
    (ho : Along receive (OtherAccepted requestId) c arrivals) :
    ∃ r, (requestId, .ok r) ∈ (arrivals.foldl receive c).replies ∧
      r.status = response.status ∧ r.body = response.body := by
  have hf : response.pieces.length * chunkBytes ≤ maxBodyBytes := by
    have hc : response.pieces.length ≤ maxBodyBytes / chunkBytes := by
      rw [HttpResponse.pieces, length_chunks, ceilDiv_le_iff_le_mul chunkBytes_pos]
      exact hs
    exact (Nat.mul_le_mul_right _ hc).trans (Nat.div_mul_le_self _ _)
  have hst : Progress requestId response (arrivals.filter (·.requestId = requestId)) c := by
    rw [hfrs]
    exact .waiting hent
  have he := foldl_of_filter (fun _ _ _ _ _ h => h.own hf)
    (fun _ _ _ hoth ha h => h.other hoth ha) arrivals c ho hst
  generalize hn : ([] : List RelayFrame) = rest at he
  cases he with
  | waiting => cases hn
  | assembling hk =>
    rw [bodyFrames_drop (getElem?_eq_getElem hk)] at hn
    cases hn
  | done hr hsa hb => exact ⟨_, hr, hsa, hb⟩

/-- The caller has no response, and gets none: the header is still to come, or the entry is gone. -/
def Refused (requestId : String) (response : HttpResponse) (rest : List RelayFrame)
    (c : RelayClient) : Prop :=
  (∀ r, (requestId, .ok r) ∉ c.replies) ∧
    (rest = responseFrames requestId response ∨ c.pending.lookup requestId = none)

theorem Refused.failPending {rest' : List RelayFrame} (h : Refused requestId response rest c)
    (error : String) : Refused requestId response rest' (c.failPending error) :=
  ⟨fun r hr => h.1 r (ok_mem_failPending.1 hr), .inr rfl⟩

theorem Refused.other (ho : frame.requestId ≠ requestId) (h : Refused requestId response rest c) :
    Refused requestId response rest (c.receive frame) := by
  unfold receive
  split
  next hre =>
    have hs := spares_of_receiveResponse ho hre
    exact ⟨fun r hr => h.1 r ((hs.replies _).1 hr), h.2.imp_right hs.entry.trans⟩
  · exact h.failPending _

theorem Refused.own (hl : maxBodyBytes < response.pieces.length * chunkBytes)
    (ho : frame.requestId = requestId) (h : Refused requestId response (frame :: rest) c) :
    Refused requestId response rest (c.receive frame) := by
  subst ho
  unfold receive
  split
  next c' hr =>
    obtain hf | hn := h.2
    · rw [responseFrames, List.cons.injEq] at hf
      have hb : maxBodyBytes < min ((chunks chunkBytes response.body).length * chunkBytes)
          (2 ^ 64 - 1) := lt_min hl (by decide)
      rw [hf.1, receiveResponse, if_pos hb] at hr
      split_ifs at hr
    · have hs : c' = c := by
        cases frame with simp [receiveResponse, RelayFrame.requestId] at hr hn
        | failure => rw [hn] at hr; exact (Except.ok.inj hr).symm
        | request => exact hr.symm
        | response => rw [hn] at hr; split_ifs at hr
        | body => rw [hn] at hr; cases hr
      exact hs ▸ ⟨h.1, .inr hn⟩
  · exact h.failPending _

theorem response_refused (hs : maxBodyBytes / chunkBytes * chunkBytes < response.body.length)
    (hn : ∀ r, (requestId, .ok r) ∉ c.replies)
    (hf : arrivals.filter (·.requestId = requestId) = responseFrames requestId response) :
    ∀ r, (requestId, .ok r) ∉ (arrivals.foldl receive c).replies := by
  have hl : maxBodyBytes < response.pieces.length * chunkBytes := by
    have hc : maxBodyBytes / chunkBytes < response.pieces.length := by
      rw [HttpResponse.pieces, length_chunks, ← not_le, ceilDiv_le_iff_le_mul chunkBytes_pos]
      exact not_le.2 hs
    exact (Nat.div_lt_iff_lt_mul chunkBytes_pos).1 hc
  have ha : ∀ (arrivals : List RelayFrame) (c : RelayClient),
      Along receive (fun _ _ => True) c arrivals := fun arrivals => by
    induction arrivals with
    | nil => exact fun _ => trivial
    | cons f arrivals ih => exact fun c => ⟨trivial, ih _⟩
  have hst : Refused requestId response (arrivals.filter (·.requestId = requestId)) c :=
    ⟨hn, .inl hf⟩
  have he := foldl_of_filter (fun _ _ _ hown _ h => h.own hl hown)
    (fun _ _ _ ho _ h => h.other ho) arrivals c (ha _ _) hst
  exact he.1

end RelayClient

def HttpCommand.pieces (command : HttpCommand) : List Bytes := chunks chunkBytes command.body

theorem HttpCommand.flatten_pieces (cmd : HttpCommand) : cmd.pieces.flatten = cmd.body :=
  flatten_chunks chunkBytes_pos cmd.body

def HttpCommand.head (command : HttpCommand) : RequestHead where
  method := asciiUppercase command.method
  path := command.path
  headers := (stringFields (headerObject command.headers)).map fun h => (asciiLowercase h.1, h.2)
  bodyChunks := command.pieces.length

namespace RelayExecutor

variable {e e' : RelayExecutor} {requestId : String} {command : HttpCommand}
  {before : List (String × RequestHead × Bytes)}

variable {p : PendingRequest} {frame : RelayFrame} {rest : List RelayFrame} {other : String}

def dispatchedFor (e : RelayExecutor) (requestId : String) : List (String × RequestHead × Bytes) :=
  e.dispatched.filter (·.1 = requestId)

/-- `e'` has the entry and the dispatches of a request as `e` has them. -/
structure Spares (requestId : String) (e e' : RelayExecutor) : Prop where
  entry : e'.pending.lookup requestId = e.pending.lookup requestId
  dispatched : e'.dispatchedFor requestId = e.dispatchedFor requestId

theorem Spares.trans {e'' : RelayExecutor} (h : Spares requestId e e')
    (h' : Spares requestId e' e'') : Spares requestId e e'' :=
  ⟨h'.entry.trans h.entry, h'.dispatched.trans h.dispatched⟩

theorem spares_put (h : p.requestId ≠ requestId) :
    Spares requestId e { e with pending := e.pending.put p } where
  entry := by rw [lookup_put, if_neg (Ne.symm h)]
  dispatched := rfl

theorem spares_delete (h : other ≠ requestId) :
    Spares requestId e { e with pending := e.pending.deleteWhere (·.requestId = other) } where
  entry := by rw [Table.lookup_deleteWhere_key, if_neg (Ne.symm h)]
  dispatched := rfl

theorem spares_dispatch (h : other ≠ requestId) (head : RequestHead)
    (body : Bytes) : Spares requestId e (e.dispatch other head body) where
  entry := rfl
  dispatched := by simp [dispatchedFor, dispatch, h]

theorem spares_respondRejection (other : String) (rejection : Rejection) :
    Spares requestId e (e.respondRejection other rejection) := ⟨rfl, rfl⟩

theorem identifier_eq_ok {value id : String} (h : identifier value = .ok id) : id = value := by
  unfold identifier at h
  split at h <;> cases h
  rfl

theorem spares_of_handle (ho : frame.requestId ≠ requestId) (h : e.handle frame = .ok e') :
    Spares requestId e e' := by
  unfold handle at h
  split at h
  · next other method path headers bodyChunks =>
    simp [handleHttpRequest, bind_eq_ok] at h
    obtain ⟨id, hid, h⟩ := h
    rw [identifier_eq_ok hid] at h
    split at h
    · cases h
    split at h
    · cases h
      exact spares_respondRejection _ _
    split at h
    · cases h
      exact spares_dispatch ho _ _
    split at h <;> cases h
    · exact spares_respondRejection _ _
    · exact spares_put ho
  · next other index data =>
    simp [handleHttpBody, bind_eq_ok] at h
    obtain ⟨id, hid, h⟩ := h
    rw [identifier_eq_ok hid] at h
    split at h
    · cases h
    split at h
    · cases h
    next p hp =>
    have hk := (key_of_lookup hp).trans_ne ho
    split at h
    · cases h
    split at h
    · cases h
      exact spares_put (p := p.fill _ _ _) hk
    split at h <;> cases h
    · exact (spares_delete ho).trans (spares_respondRejection _ _)
    · exact (spares_delete ho).trans (spares_dispatch ho _ _)
  · cases h
  · cases h

theorem spares_of_receive (ho : frame.requestId ≠ requestId) :
    Spares requestId e (e.receive frame) := by
  unfold receive
  split
  · next h => exact spares_of_handle ho h
  · exact ⟨rfl, rfl⟩

/-- Where a request stands at the host, by the frames of it that are still to come. -/
inductive Progress (requestId : String) (command : HttpCommand)
    (before : List (String × RequestHead × Bytes)) : List RelayFrame → RelayExecutor → Prop where
  | waiting {e : RelayExecutor} (hbefore : e.dispatchedFor requestId = before) :
    Progress requestId command before (requestFrames requestId command) e
  | assembling {e : RelayExecutor} {k : ℕ} {p : PendingRequest} (hk : k < command.pieces.length)
    (hentry : e.pending.lookup requestId = some p) (hhead : p.head = command.head)
    (hchunks : p.chunks = firstSlots command.pieces k) (hreceived : p.received = k)
    (hbefore : e.dispatchedFor requestId = before) :
    Progress requestId command before (bodyFrames requestId (command.pieces.drop k) k) e
  | done {e : RelayExecutor} (hdispatched : e.dispatchedFor requestId =
      before ++ [(requestId, command.head, command.body)]) :
    Progress requestId command before [] e

theorem Progress.spares (h : Progress requestId command before rest e)
    (hs : Spares requestId e e') : Progress requestId command before rest e' := by
  cases h with
  | waiting hb => exact .waiting (hs.dispatched.trans hb)
  | assembling hk he hh hc hr hb =>
    exact .assembling hk (hs.entry.trans he) hh hc hr (hs.dispatched.trans hb)
  | done hd => exact .done (hs.dispatched.trans hd)

theorem Progress.dispatch (cmd : HttpCommand) (hb : e.dispatchedFor requestId = before) :
    Progress requestId cmd before [] (e.dispatch requestId cmd.head cmd.body) := by
  refine .done ?_
  rw [← hb]
  simp [dispatchedFor, RelayExecutor.dispatch]

/-- A request's header finds room for its body. -/
def RoomForHeader (requestId : String) (e : RelayExecutor) (frame : RelayFrame) : Prop :=
  frame.requestId = requestId →
    match frame with
    | .request .. => e.pending.rows.length < maxPendingRequests
    | _ => True

/-- The request's id and method are well formed, and its body is within the limit. -/
structure Sendable (requestId : String) (command : HttpCommand) : Prop where
  identifier : RelayExecutor.identifier requestId = .ok requestId
  method : validMethod (asciiUppercase command.method)
  size : command.body.length ≤ maxBodyBytes

section

variable (hsend : Sendable requestId command)
include hsend

theorem Progress.header (hr : e.pending.rows.length < maxPendingRequests)
    (hbef : e.dispatchedFor requestId = before) :
    Progress requestId command before (bodyFrames requestId command.pieces)
      (e.receive (.request requestId command.method command.path (headerObject command.headers)
        command.pieces.length)) := by
  have hc : ¬ maxBodyBytes ⌈/⌉ chunkBytes < command.pieces.length := by
    rw [not_lt, HttpCommand.pieces, length_chunks, ceilDiv_le_iff_le_mul chunkBytes_pos]
    exact hsend.size.trans (le_smul_ceilDiv chunkBytes_pos)
  unfold receive
  simp only [handle, handleHttpRequest, hsend.identifier, hsend.method, hc, not_le.2 hr,
    bind, Except.bind]
  by_cases hz : command.pieces.length = 0
  · have hn := List.length_eq_zero_iff.1 hz
    have hb : command.body = [] := by
      rw [← command.flatten_pieces, hn]
      rfl
    have hd := Progress.dispatch command hbef
    rw [hb] at hd
    simpa [hn, bodyFrames, HttpCommand.head] using hd
  · simp [hz]
    refine .assembling (k := 0) (by omega) (lookup_put_self _ rfl) rfl ?_ rfl hbef
    exact (firstSlots_zero _).symm

theorem Progress.body
    (hpc : command.pieces[k]? = some piece) (he : e.pending.lookup requestId = some p)
    (hh : p.head = command.head) (hc : p.chunks = firstSlots command.pieces k)
    (hr : p.received = k) (hbef : e.dispatchedFor requestId = before) :
    Progress requestId command before (bodyFrames requestId (command.pieces.drop (k + 1)) (k + 1))
      (e.receive (.body requestId k piece)) := by
  obtain ⟨hk, -⟩ := getElem?_eq_some_iff.1 hpc
  have hkey := key_of_lookup he
  have hd : ¬ chunkBytes < piece.length := not_lt.2 (length_le_of_mem_chunks (mem_of_getElem? hpc))
  have hs : p.chunks[k]? = some none := by rw [hc, getElem?_firstSlots hk]
  have hf : (p.fill k none piece).chunks = firstSlots command.pieces (k + 1) := by
    simp only [PendingRequest.fill, hc, set_firstSlots hpc]
  have hcnt : (p.fill k none piece).received = k + 1 := by
    simp [PendingRequest.fill, hr]
  have hh' : (p.fill k none piece).head = command.head := hh
  unfold receive
  simp only [handle, handleHttpBody, hsend.identifier, bind, Except.bind, hd, he, hs, hcnt, hh']
  have hc' : command.head.bodyChunks = command.pieces.length := rfl
  by_cases hp : k + 1 < command.head.bodyChunks
  · simp [hp]
    exact .assembling (by omega) (lookup_put_self _ hkey) hh' hf hcnt hbef
  · have hl : k + 1 = command.pieces.length := by omega
    have hb : (taken (p.fill k none piece).chunks).flatten = command.body := by
      rw [hf, hl, taken_firstSlots, command.flatten_pieces]
    simp [hp, hb, not_lt.2 hsend.size]
    rw [hl, List.drop_length]
    exact Progress.dispatch _ hbef

theorem Progress.own (hro : RoomForHeader requestId e frame)
    (h : Progress requestId command before (frame :: rest) e) :
    Progress requestId command before rest (e.receive frame) := by
  generalize hf : frame :: rest = frames at h
  cases h with
  | waiting hb =>
    cases hf
    exact Progress.header hsend (hro rfl) hb
  | @assembling _ k p hk he hh hc hr hb =>
    have hp := getElem?_eq_getElem hk
    rw [bodyFrames_drop hp] at hf
    cases hf
    exact Progress.body hsend hp he hh hc hr hb
  | done => cases hf

theorem request_dispatched
    (hf : arrivals.filter (·.requestId = requestId) = requestFrames requestId command)
    (hr : Along receive (RoomForHeader requestId) e arrivals) :
    (arrivals.foldl receive e).dispatchedFor requestId =
      e.dispatchedFor requestId ++ [(requestId, command.head, command.body)] := by
  have hs : Progress requestId command (e.dispatchedFor requestId)
      (arrivals.filter (·.requestId = requestId)) e := by
    rw [hf]
    exact .waiting rfl
  have he := foldl_of_filter (fun _ _ _ _ hr h => h.own hsend hr)
    (fun _ _ _ ho _ h => h.spares (spares_of_receive ho)) arrivals e hr hs
  generalize hn : ([] : List RelayFrame) = rest at he
  cases he with
  | waiting => cases hn
  | assembling hk =>
    rw [bodyFrames_drop (getElem?_eq_getElem hk)] at hn
    cases hn
  | done hd => exact hd

end

end RelayExecutor

/-- With the frames of a request or response arriving once and in order, among any others: the relay
client returns every response of at most the whole chunks that fit into the limit, as long as no
other frame ends the connection, and never one of more; and the host dispatches every well-formed
request within the limit once, with exactly its body, if there is room for it. -/
theorem relay_limits_agree (requestId : String) :
    (∀ (response : HttpResponse) (c : RelayClient) (arrivals : List RelayFrame),
      response.body.length ≤ maxBodyBytes / chunkBytes * chunkBytes →
      c.pending.lookup requestId = some { requestId } →
      arrivals.filter (·.requestId = requestId) = responseFrames requestId response →
      Along RelayClient.receive (RelayClient.OtherAccepted requestId) c arrivals →
      ∃ r, (requestId, .ok r) ∈ (arrivals.foldl RelayClient.receive c).replies ∧
        r.status = response.status ∧ r.body = response.body) ∧
    (∀ (response : HttpResponse) (c : RelayClient) (arrivals : List RelayFrame),
      maxBodyBytes / chunkBytes * chunkBytes < response.body.length →
      (∀ r, (requestId, .ok r) ∉ c.replies) →
      arrivals.filter (·.requestId = requestId) = responseFrames requestId response →
      ∀ r, (requestId, .ok r) ∉ (arrivals.foldl RelayClient.receive c).replies) ∧
    ∀ (command : HttpCommand) (e : RelayExecutor) (arrivals : List RelayFrame),
      RelayExecutor.Sendable requestId command →
      arrivals.filter (·.requestId = requestId) = requestFrames requestId command →
      Along RelayExecutor.receive (RelayExecutor.RoomForHeader requestId) e arrivals →
      (arrivals.foldl RelayExecutor.receive e).dispatchedFor requestId =
        e.dispatchedFor requestId ++ [(requestId, command.head, command.body)] :=
  ⟨fun _ _ _ hs he hf ho =>
    RelayClient.response_returned hs he hf ho,
   fun _ _ _ hs hn hf => RelayClient.response_refused hs hn hf,
   fun _ _ _ hsend hf hr => RelayExecutor.request_dispatched hsend hf hr⟩

def sentR1 : RelayClient := { pending := Table.empty.put { requestId := "r1" } }

def postHello : HttpCommand where
  method := "post"
  path := "/api/v1/messages"
  headers := []
  body := "hello".toUTF8.toList

theorem relay_limits_agree_small :
    (∃ r, ("r1", .ok r) ∈ ((responseFrames "r1" threeBytes).foldl RelayClient.receive
      sentR1).replies ∧ r.status = 200 ∧ r.body = [1, 2, 3]) ∧
    ((requestFrames "r1" postHello).foldl RelayExecutor.receive {}).dispatchedFor "r1" =
      [("r1", postHello.head, postHello.body)] := by
  have ho : Along RelayClient.receive (RelayClient.OtherAccepted "r1") sentR1
      (responseFrames "r1" threeBytes) := ⟨fun h => absurd rfl h, fun h => absurd rfl h, trivial⟩
  have hf : requestFrames "r1" postHello =
      [.request "r1" "post" "/api/v1/messages" (headerObject []) 1,
        .body "r1" 0 "hello".toUTF8.toList] := by
    decide +kernel
  have hr : Along RelayExecutor.receive (RelayExecutor.RoomForHeader "r1") {}
      (requestFrames "r1" postHello) := by
    rw [hf]
    exact ⟨fun _ => by decide, fun _ => trivial, trivial⟩
  have hsend : RelayExecutor.Sendable "r1" postHello :=
    ⟨by decide +kernel, by decide +kernel, by decide +kernel⟩
  exact ⟨(relay_limits_agree "r1").1 threeBytes sentR1 _ (by decide +kernel) (by rfl)
      (by decide +kernel) ho,
    (relay_limits_agree "r1").2.2 postHello {} _ hsend (by decide +kernel) hr⟩

def fullResponse : HttpResponse where
  status := 200
  headers := []
  body := List.replicate maxBodyBytes 0

/-- The host accepts it, and all its frames in order bring the client's caller an error. -/
theorem full_response_refused : acceptResponse none fullResponse = .ok fullResponse ∧
    (sentR1.receive (fullResponse.header "r1")).replies =
      [("r1", .error "relay response has an invalid body chunk count")] ∧ ∀ r, ("r1", .ok r) ∉
      ((responseFrames "r1" fullResponse).foldl RelayClient.receive sentR1).replies := by
  have hl : fullResponse.body.length = maxBodyBytes := List.length_replicate
  have hc : fullResponse.pieces.length = 43 := by
    rw [HttpResponse.pieces, length_chunks, hl]
    decide
  have hr : sentR1.receive (fullResponse.header "r1") =
      sentR1.failPending "relay response has an invalid body chunk count" := by
    unfold HttpResponse.header
    rw [hc]
    rfl
  refine ⟨?_, ?_, ?_⟩
  · simp [acceptResponse, hl]
  · rw [hr]
    rfl
  · refine RelayClient.response_refused (by rw [hl]; decide) (by simp [sentR1]) ?_
    refine List.filter_eq_self.2 fun f hf => ?_
    simp [responseFrames, bodyFrames] at hf
    rcases hf with rfl | ⟨_, _, -, rfl⟩ <;> rfl

end Choruz.Relay
