import Choruz.Relay

/-!
# Relayed bodies arrive exactly

The relay client counts the chunks it has and completes when the count reaches the number of
slots.  A body is whole while the count is the number of filled slots; a header that arrives again
empties the slots and keeps the count.  The dashboard's transport has the same count, but a slot
that is empty when it completes makes it throw.

On a stream the host drops its buffer when a message has grown too large and goes on with the
frames that follow, so a message is dropped as a whole only where none follows.
-/

namespace Choruz.Relay

variable {requestId : String} {response : HttpResponse} {frame : RelayFrame} {piece : Bytes}
  {event : ClientEvent} {i : ℕ}

open Relational Reassembly RelayClient HttpResponse Steps

theorem chunkBytes_pos : 0 < chunkBytes := by decide

def HttpResponse.pieces (response : HttpResponse) : List Bytes := chunks chunkBytes response.body

theorem HttpResponse.flatten_pieces (resp : HttpResponse) : resp.pieces.flatten = resp.body :=
  flatten_chunks chunkBytes_pos resp.body

def HttpResponse.header (response : HttpResponse) (requestId : String) : RelayFrame :=
  .response requestId response.status.toNat (headerObject response.headers) response.pieces.length

theorem mem_bodyFrames {pieces : List Bytes} : frame ∈ bodyFrames requestId pieces ↔
      ∃ i piece, pieces[i]? = some piece ∧ frame = .body requestId i piece := by
  simp [bodyFrames, List.mem_zipIdx_iff_getElem?]
  constructor
  · rintro ⟨piece, i, h, rfl⟩
    exact ⟨i, piece, h, rfl⟩
  · rintro ⟨i, piece, h, rfl⟩
    exact ⟨piece, i, h, rfl⟩

theorem mem_responseFrames :
    frame ∈ responseFrames requestId response ↔ frame = response.header requestId ∨
      ∃ i piece, response.pieces[i]? = some piece ∧ frame = .body requestId i piece := by
  unfold responseFrames
  rw [mem_cons, mem_bodyFrames]
  rfl

/-- Every frame of the request that arrives is one of the host's. -/
def Authentic (requestId : String) (response : HttpResponse) : ClientEvent → Prop
  | .frame frame => frame.requestId = requestId → frame ∈ responseFrames requestId response
  | _ => True

instance (requestId : String) (response : HttpResponse) (event : ClientEvent) :
    Decidable (Authentic requestId response event) :=
  match event with
  | .frame _ => inferInstanceAs (Decidable (_ → _))
  | .send _ | .timeout _ | .lost _ => inferInstanceAs (Decidable True)

namespace RelayClient

variable {c c' : RelayClient} {requestId : String} {p : Pending} {other : String}

/-- `c'` has the entry of a request as `c` has it and told its caller nothing new. -/
structure Spares (requestId : String) (c c' : RelayClient) : Prop where
  entry : c'.pending.lookup requestId = c.pending.lookup requestId
  replies : ∀ r, (requestId, r) ∈ c'.replies ↔ (requestId, r) ∈ c.replies

theorem Spares.trans {c'' : RelayClient} (h : Spares requestId c c')
    (h' : Spares requestId c' c'') : Spares requestId c c'' :=
  ⟨h'.entry.trans h.entry, fun r => (h'.replies r).trans (h.replies r)⟩

theorem spares_put (h : p.requestId ≠ requestId) :
    Spares requestId c { c with pending := c.pending.put p } where
  entry := by rw [lookup_put, if_neg (Ne.symm h)]
  replies _ := Iff.rfl

theorem spares_answer (h : other ≠ requestId) (ans : Except String RelayResponse) :
    Spares requestId c {
      pending := c.pending.deleteWhere (·.requestId = other)
      replies := c.replies ++ [(other, ans)] } where
  entry := by rw [Table.lookup_deleteWhere_key, if_neg (Ne.symm h)]
  replies r := by simp [Ne.symm h]

theorem spares_complete (h : other ≠ requestId) : Spares requestId c (c.complete other) := by
  unfold complete
  split
  · exact ⟨rfl, fun _ => Iff.rfl⟩
  · exact spares_answer h _

theorem spares_of_receiveResponse (ho : frame.requestId ≠ requestId)
    (h : c.receiveResponse frame = .ok c') : Spares requestId c c' := by
  unfold receiveResponse at h
  split at h
  · split at h <;> cases h
    · exact ⟨rfl, fun _ => Iff.rfl⟩
    · exact spares_answer ho _
  · split at h
    · cases h
    split at h
    · cases h
    split at h
    · cases h
    next p hp =>
    have hk := (key_of_lookup hp).trans_ne ho
    cases h
    split
    · exact (spares_put (p := p.begin _ _ _) hk).trans (spares_complete ho)
    · exact spares_put (p := p.begin _ _ _) hk
  · split at h
    · cases h
    next p hp =>
    have hk := (key_of_lookup hp).trans_ne ho
    split at h <;> cases h
    split
    · exact (spares_put (p := p.fill _ _ _) hk).trans (spares_complete ho)
    · exact spares_put (p := p.fill _ _ _) hk
  · cases h
    exact ⟨rfl, fun _ => Iff.rfl⟩

theorem ok_mem_failPending {error : String} {r : RelayResponse} :
    (requestId, .ok r) ∈ (c.failPending error).replies ↔ (requestId, .ok r) ∈ c.replies := by
  simp [failPending]

theorem complete_of_lookup (h : c.pending.lookup requestId = some p) :
    (c.complete requestId).pending.lookup requestId = none ∧
      (c.complete requestId).replies = c.replies ++ [(requestId, .ok p.answer)] := by
  unfold complete
  rw [h]
  refine ⟨?_, rfl⟩
  rw [Table.lookup_deleteWhere_key, if_pos rfl]

variable {response : HttpResponse}

/-- The slots of an entry: none yet, or the host's status and chunks, as many as are counted. -/
structure Assembles (response : HttpResponse) (p : Pending) : Prop where
  status : p.status = some response.status
  holds : Holds response.pieces p.chunks
  received : p.received = filled p.chunks

/-- The entry of the request is new or being assembled, and what its caller was told is exact. -/
structure Exact (requestId : String) (response : HttpResponse) (c : RelayClient) : Prop where
  entry : ∀ p, c.pending.lookup requestId = some p → p.chunks = [] ∨ Assembles response p
  told : ∀ r, (requestId, .ok r) ∈ c.replies → r.status = response.status ∧ r.body = response.body

theorem Assembles.answer_eq (h : Assembles response p) (hf : p.received = p.chunks.length) :
    p.answer.status = response.status ∧ p.answer.body = response.body := by
  have hp := h.holds.taken_eq (h.received.symm.trans hf)
  constructor
  · simp [Pending.answer, h.status]
  · simp [Pending.answer, hp]
    exact response.flatten_pieces

theorem Assembles.header (resp : HttpResponse) (hz : p.received = 0) :
    Assembles resp (p.begin resp.status.toNat (headerObject resp.headers) resp.pieces.length) where
  status := by simp [Pending.begin]
  holds := holds_replicate resp.pieces
  received := by simp [Pending.begin, hz]

theorem Assembles.fill (h : Assembles response p) {slot : Option Bytes}
    (hp : response.pieces[i]? = some piece) (hs : p.chunks[i]? = some slot) :
    Assembles response (p.fill i slot piece) where
  status := h.status
  holds := h.holds.set hp
  received := by
    obtain ⟨hi, -⟩ := getElem?_eq_some_iff.1 hs
    simp [Pending.fill]
    rw [filled_set hi, hs, h.received]
    cases slot <;> rfl

section

variable (h : Exact requestId response c)
include h

theorem Exact.spares (hs : Spares requestId c c') : Exact requestId response c' where
  entry p hp := h.entry p (hs.entry ▸ hp)
  told r hr := h.told r ((hs.replies _).1 hr)

theorem Exact.failPending (error : String) :
    Exact requestId response (c.failPending error) where
  entry p hp := by
    cases hp
  told r hr := h.told r (ok_mem_failPending.1 hr)

theorem Exact.complete (hp : c.pending.lookup requestId = some p)
    (ha : Assembles response p) (hf : p.received = p.chunks.length) :
    Exact requestId response (c.complete requestId) := by
  obtain ⟨hn, hre⟩ := complete_of_lookup hp
  refine ⟨fun q hq => ?_, fun r hr => ?_⟩
  · cases hn.symm.trans hq
  · rw [hre, mem_append, mem_singleton] at hr
    rcases hr with hr | hr
    · exact h.told r hr
    · cases hr
      exact ha.answer_eq hf

theorem Exact.put (hk : p.requestId = requestId) (ha : Assembles response p) :
    Exact requestId response { c with pending := c.pending.put p } where
  entry q hq := by
    rw [lookup_put, if_pos hk.symm] at hq
    cases hq
    exact .inr ha
  told := h.told

theorem Exact.receive_header (hz : ∀ p, c.pending.lookup requestId = some p → p.received = 0) :
    Exact requestId response (c.receive (response.header requestId)) := by
  unfold receive
  split
  · next c' hr =>
    simp [header, receiveResponse] at hr
    split at hr
    · cases hr
    split at hr
    · cases hr
    split at hr
    · cases hr
    next p hp =>
    have hk := key_of_lookup hp
    have ha := Assembles.header response (hz p hp)
    have hput := h.put (p := p.begin _ _ _) hk ha
    cases hr
    split
    · next hc =>
      refine hput.complete (lookup_put_self _ hk) ha ?_
      simp [Pending.begin, hz p hp, hc]
    · exact hput
  · exact h.failPending _

theorem Exact.receive_body (hpc : response.pieces[i]? = some piece) :
    Exact requestId response (c.receive (.body requestId i piece)) := by
  unfold receive
  split
  · next c' hr =>
    simp [receiveResponse] at hr
    split at hr
    · cases hr
    next p hp =>
    split at hr
    · cases hr
    next slot hs =>
    have hk := key_of_lookup hp
    have ha : Assembles response p := by
      rcases h.entry p hp with hn | ha
      · simp [hn] at hs
      · exact ha
    have hf := ha.fill hpc hs
    have hput := h.put (p := p.fill i slot piece) hk hf
    cases hr
    split
    · next hfu =>
      exact hput.complete (lookup_put_self _ hk) hf hfu
    · exact hput
  · exact h.failPending _

end

/-- The frames of the request are the host's, and its header arrives while no chunk is counted. -/
def HeaderFirst (requestId : String) (response : HttpResponse) (c : RelayClient)
    (event : ClientEvent) : Prop :=
  Authentic requestId response event ∧
    match event with
    | .frame frame => frame.requestId = requestId → frame.isResponse →
      (c.pending.lookup requestId).all (·.received = 0)
    | _ => True

instance (requestId : String) (response : HttpResponse) (c : RelayClient) (event : ClientEvent) :
    Decidable (HeaderFirst requestId response c event) :=
  match event with
  | .frame _ | .send _ | .timeout _ | .lost _ => inferInstanceAs (Decidable (_ ∧ _))

theorem Exact.step (h : Exact requestId response c)
    (hok : HeaderFirst requestId response c event) (hs : step c event = some c') :
    Exact requestId response c' := by
  cases event with
  | send other =>
    simp only [step] at hs
    split at hs <;> cases hs
    by_cases ho : other = requestId
    · refine ⟨fun p hp => ?_, h.told⟩
      rw [lookup_put, if_pos ho.symm] at hp
      cases hp
      exact .inl rfl
    · exact h.spares (spares_put ho)
  | timeout other =>
    cases hs
    exact h
  | lost error =>
    cases hs
    exact h.failPending error
  | frame frame =>
    cases hs
    by_cases ho : frame.requestId = requestId
    · obtain rfl | ⟨i, piece, hpc, rfl⟩ := mem_responseFrames.1 (hok.1 ho)
      · refine h.receive_header fun p hp => ?_
        have hz := hok.2 ho rfl
        rw [hp] at hz
        simpa using hz
      · exact h.receive_body hpc
    · unfold receive
      split
      · next hr => exact h.spares (spares_of_receiveResponse ho hr)
      · exact h.failPending _

end RelayClient

namespace RelayTransport

variable {t t' : RelayTransport} {requestId : String} {response : HttpResponse} {q : WebRequest}

/-- `t'` has the entry of a request as `t` has it, or none, and resolved its promise with nothing
new. -/
structure Spares (requestId : String) (t t' : RelayTransport) : Prop where
  entry : ∀ request, t'.pending.lookup requestId = some request →
    t.pending.lookup requestId = some request
  settled : ∀ r, (requestId, .ok r) ∈ t'.settled → (requestId, .ok r) ∈ t.settled

theorem Spares.refl : Spares requestId t t := ⟨fun _ h => h, fun _ h => h⟩

theorem spares_put (h : q.requestId ≠ requestId) :
    Spares requestId t { t with pending := t.pending.put q } where
  entry other ho := by rwa [lookup_put, if_neg (Ne.symm h)] at ho
  settled _ hr := hr

theorem spares_settle (other : String) : Spares requestId t (t.settle other) where
  entry request hreq := by
    rw [settle, Table.lookup_deleteWhere_key] at hreq
    split_ifs at hreq
    exact hreq
  settled _ hr := hr

theorem spares_reject (other error : String) : Spares requestId t (t.reject other error) where
  entry := (spares_settle other).entry
  settled r hr := by simpa [reject] using hr

theorem spares_complete (h : q.requestId ≠ requestId) : Spares requestId t (t.complete q) := by
  unfold complete
  split
  · exact spares_settle _
  split
  · refine ⟨(spares_settle q.requestId).entry, fun r hr => ?_⟩
    simpa [Ne.symm h] using hr
  · exact spares_settle _

theorem spares_of_dispatch (ho : frame.requestId ≠ requestId)
    (h : t.dispatch frame = some t') : Spares requestId t t' := by
  unfold dispatch at h
  split at h
  · split at h <;> cases h
    · exact Spares.refl
    · exact spares_reject _ _
  · split at h
    · cases h
      exact Spares.refl
    · next request hr =>
      have hk := (key_of_lookup hr).trans_ne ho
      split at h
      · cases h
        exact spares_reject _ _
      · split at h <;> cases h
        split
        · exact spares_complete (q := request.begin _ _) hk
        · exact spares_put (q := request.begin _ _) hk
  · split at h
    · cases h
      exact Spares.refl
    · next request hr =>
      have hk := (key_of_lookup hr).trans_ne ho
      split at h <;> cases h
      · split
        · exact spares_complete (q := request.fill _ _ _) hk
        · exact spares_put (q := request.fill _ _ _) hk
      · exact Spares.refl
  · cases h
    exact Spares.refl

def bodyOf (response : HttpResponse) : Bytes :=
  if response.status.toNat ∈ nullBodyStatuses then [] else response.body

/-- The entry of the request has no header yet or the host's, with chunks of the host in its slots,
and its promise was resolved with nothing but the host's response. -/
structure Exact (requestId : String) (response : HttpResponse) (t : RelayTransport) : Prop where
  entry : ∀ request, t.pending.lookup requestId = some request → request.head = none ∨
      request.head = some ⟨response.status.toNat, response.pieces.length⟩ ∧
        Holds response.pieces request.body
  told : ∀ r, (requestId, .ok r) ∈ t.settled →
    r.status = response.status.toNat ∧ r.body = bodyOf response

section

variable (h : Exact requestId response t)
include h

theorem Exact.spares (hs : Spares requestId t t') : Exact requestId response t' where
  entry request hreq := h.entry request (hs.entry request hreq)
  told r hr := h.told r (hs.settled r hr)

theorem Exact.put (hk : q.requestId = requestId)
    (hhe : q.head = some ⟨response.status.toNat, response.pieces.length⟩)
    (hh : Holds response.pieces q.body) :
    Exact requestId response { t with pending := t.pending.put q } where
  entry other ho := by
    rw [lookup_put, if_pos hk.symm] at ho
    cases ho
    exact .inr ⟨hhe, hh⟩
  told := h.told

theorem Exact.complete (hhe : q.head = some ⟨response.status.toNat, response.pieces.length⟩)
    (hh : Holds response.pieces q.body) : Exact requestId response (t.complete q) := by
  unfold RelayTransport.complete
  rw [hhe]
  dsimp only
  split
  · next ha =>
    have hf : filled q.body = q.body.length := List.countP_eq_length.2 (all_eq_true.1 ha.1)
    refine ⟨(h.spares (spares_settle q.requestId)).entry, fun r hr => ?_⟩
    rw [mem_append, mem_singleton] at hr
    rcases hr with hr | hr
    · exact h.told r hr
    cases hr
    refine ⟨rfl, ?_⟩
    rw [hh.taken_eq hf, response.flatten_pieces]
    rfl
  · exact h.spares (spares_settle _)

theorem Exact.dispatch_header (hd : t.dispatch (response.header requestId) = some t') :
    Exact requestId response t' := by
  simp [header, dispatch] at hd
  split at hd
  · cases hd
    exact h
  next request hr =>
  split at hd
  · cases hd
    exact h.spares (spares_reject _ _)
  split at hd
  · cases hd
  have hk := key_of_lookup hr
  have hh : Holds response.pieces
      (request.begin response.status.toNat response.pieces.length).body :=
    holds_replicate response.pieces
  cases hd
  split
  · exact h.complete rfl hh
  · exact h.put (q := request.begin _ _) hk rfl hh

theorem Exact.dispatch_body (hp : response.pieces[i]? = some piece)
    (hd : t.dispatch (.body requestId i piece) = some t') :
    Exact requestId response t' := by
  simp [dispatch] at hd
  split at hd
  · cases hd
    exact h
  next request hr =>
  split at hd
  · next head slot hhe hs =>
    obtain hn | ⟨hh', hh⟩ := h.entry request hr
    · cases hhe.symm.trans hn
    have hk := key_of_lookup hr
    have hf : Holds response.pieces (request.fill i slot piece).body := hh.set hp
    cases hd
    split
    · exact h.complete (q := request.fill _ _ _) hh' hf
    · exact h.put (q := request.fill _ _ _) hk hh' hf
  · cases hd
    exact h

theorem Exact.step (hok : Authentic requestId response event) (hs : step t event = some t') :
    Exact requestId response t' := by
  cases event with
  | send other =>
    simp only [RelayTransport.step] at hs
    split at hs <;> cases hs
    by_cases ho : other = requestId
    · refine ⟨fun p hp => ?_, h.told⟩
      rw [lookup_put, if_pos ho.symm] at hp
      cases hp
      exact .inl rfl
    · exact h.spares (spares_put ho)
  | timeout other =>
    simp [RelayTransport.step] at hs
    split at hs <;> cases hs
    exact h.spares (spares_reject _ _)
  | lost reason =>
    cases hs
    refine ⟨fun req hreq => ?_, fun r hr => h.told r ?_⟩
    · cases hreq
    · simpa using hr
  | frame frame =>
    by_cases ho : frame.requestId = requestId
    · obtain rfl | ⟨i, piece, hpc, rfl⟩ := mem_responseFrames.1 (hok ho)
      · exact h.dispatch_header hs
      · exact h.dispatch_body hpc hs
    · exact h.spares (spares_of_dispatch ho hs)

end

end RelayTransport

/-- Where the frames of a request are frames of the host's response, in any order and number and
among any others, the relay client resolves the request with the host's status and body if every
header of it arrives while no chunk of it is counted; the dashboard's transport does so without
that condition, for a status that may carry a body or a body that is empty. -/
theorem relayed_bodies_exact (requestId : String) (response : HttpResponse) :
    (∀ c, Steps (restrict step (RelayClient.HeaderFirst requestId response)) {} c →
      ∀ r, (requestId, .ok r) ∈ c.replies → r.status = response.status ∧ r.body = response.body) ∧
    ∀ t, Steps (restrict RelayTransport.step fun _ => Authentic requestId response) {} t →
      response.status.toNat ∉ nullBodyStatuses ∨ response.body = [] →
      ∀ r, (requestId, .ok r) ∈ t.settled →
        r.status = response.status.toNat ∧ r.body = response.body := by
  constructor
  · intro c hsts
    have he : RelayClient.Exact requestId response c :=
      hsts.keeps RelayClient.Exact.step ⟨(fun _ hp => nomatch hp), fun _ hr => nomatch hr⟩
    exact he.told
  · intro t hsts hb r hr
    have he : RelayTransport.Exact requestId response t :=
      hsts.keeps RelayTransport.Exact.step ⟨(fun _ hp => nomatch hp), fun _ hr => nomatch hr⟩
    obtain ⟨hs, hr⟩ := he.told r hr
    refine ⟨hs, hr.trans ?_⟩
    unfold RelayTransport.bodyOf
    rcases hb with hn | hemp
    · exact if_neg hn
    · rw [hemp, ite_self]

def threeBytes : HttpResponse where
  status := 200
  headers := [("content-type", "text/plain")]
  body := [1, 2, 3]

def headerTwice : List ClientEvent :=
  [.send "r1", .frame (threeBytes.header "r1"), .frame (threeBytes.header "r1"),
    .frame (.body "r1" 0 [1, 2, 3])]

def twoChunks : HttpResponse where
  status := 200
  headers := []
  body := List.replicate (chunkBytes + 1) 0

theorem responseFrames_twoChunks : responseFrames "r1" twoChunks =
    [.response "r1" 200 (headerObject []) 2, .body "r1" 0 (List.replicate chunkBytes 0),
      .body "r1" 1 [0]] := by
  have hc : (chunkBytes + 1) ⌈/⌉ chunkBytes = 2 := by decide
  have hl : min chunkBytes 1 = 1 := by decide
  have hp : chunks chunkBytes twoChunks.body = [List.replicate chunkBytes 0, [0]] := by
    simp [twoChunks, chunks, hc, hl, List.range_succ]
  unfold responseFrames
  rw [hp]
  rfl

theorem chunks_reversed (first second : Bytes) (headers : Json) :
    (run RelayTransport.step {} [.send "r1", .frame (.response "r1" 200 headers 2),
        .frame (.body "r1" 1 second), .frame (.body "r1" 0 first)]).map (·.settled) =
      some [("r1", .ok ⟨200, first ++ (second ++ [])⟩)] := rfl

/-- The relay client gets one chunk and the dashboard two, the last one first. -/
theorem relayed_bodies_exact_threeBytes :
    (∃ c, Steps (restrict step (RelayClient.HeaderFirst "r1" threeBytes)) {} c ∧
      c.replies.length = 1 ∧ ∀ r, ("r1", .ok r) ∈ c.replies → r.body = [1, 2, 3]) ∧
    ∃ t, Steps (restrict RelayTransport.step fun _ => Authentic "r1" twoChunks) {} t ∧
      t.settled.length = 1 ∧ ∀ r, ("r1", .ok r) ∈ t.settled → r.body = twoChunks.body := by
  have hcl : ((run (restrict step (RelayClient.HeaderFirst "r1" threeBytes)) {}
      headerTwice).any fun c => c.replies.length = 1) := by
    decide +kernel
  obtain ⟨c, hc, hre⟩ := exists_steps_of_run hcl
  obtain ⟨t, ht, hs⟩ := map_eq_some_iff.1 (chunks_reversed (List.replicate chunkBytes 0) [0]
    (headerObject []))
  rw [← run_restrict (p := fun _ => Authentic "r1" twoChunks) (by
    simp [Authentic, responseFrames_twoChunks])] at ht
  refine ⟨⟨c, hc, hre, fun r hr => ?_⟩, t, steps_of_run ht, by rw [hs]; rfl, fun r hr => ?_⟩
  · exact ((relayed_bodies_exact "r1" threeBytes).1 c hc r hr).2
  · exact ((relayed_bodies_exact "r1" twoChunks).2 t (steps_of_run ht) (.inl (by decide)) r hr).2

/-- The header, the first chunk, the header again, the second chunk: the count is two, and of the
two slots one is filled. -/
theorem header_twice_drops_chunk (first second : Bytes) (headers : Json) :
    (run step {} [.send "r1", .frame (.response "r1" 200 headers 2), .frame (.body "r1" 0 first),
        .frame (.response "r1" 200 headers 2), .frame (.body "r1" 1 second)]).map (·.replies) =
      some [("r1", .ok ⟨200, stringFields headers, second ++ []⟩)] := rfl

def resetContent : HttpResponse := { threeBytes with status := 205 }

/-- All frames are the host's: the relay client returns a body without its first chunk, and the
dashboard one of the null body statuses without its body. -/
theorem relayed_body_truncated :
    (∃ c, Steps (restrict step fun _ => Authentic "r1" twoChunks) {} c ∧
      ∃ r, ("r1", .ok r) ∈ c.replies ∧ r.body = [0] ∧ r.body ≠ twoChunks.body) ∧
    ∃ t, Steps (restrict RelayTransport.step fun _ => Authentic "r1" resetContent) {} t ∧
      t.settled = [("r1", .ok ⟨205, []⟩)] := by
  have hw : ((run (restrict RelayTransport.step fun _ => Authentic "r1" resetContent) {}
      [.send "r1", .frame (resetContent.header "r1"), .frame (.body "r1" 0 [1, 2, 3])]).any
        fun t => t.settled = [("r1", .ok ⟨205, []⟩)]) := by
    decide +kernel
  obtain ⟨c, hc, hr⟩ := map_eq_some_iff.1 (header_twice_drops_chunk (List.replicate chunkBytes 0)
    [0] (headerObject []))
  rw [← run_restrict (p := fun _ => Authentic "r1" twoChunks) (by
    simp [Authentic, responseFrames_twoChunks])] at hc
  refine ⟨⟨c, steps_of_run hc, _, by rw [hr]; exact mem_singleton_self _, rfl, fun heq => ?_⟩,
    exists_steps_of_run hw⟩
  have hl : twoChunks.body.length = chunkBytes + 1 := List.length_replicate
  rw [← heq] at hl
  exact absurd hl (by decide)

variable {message : StreamMessage} {pieces : List Bytes}

/-- Only the frame of the last piece is marked as the last. -/
theorem sendStreamMessage_eq (h : message.pieces = pieces ++ [piece]) : sendStreamMessage message
      = pieces.map (⟨message.binary, ·, false⟩) ++ [⟨message.binary, piece, true⟩] := by
  have hi : pieces.zipIdx.map (fun p => StreamFrame.mk message.binary p.1
        (p.2 + 1 = (pieces ++ [piece]).length)) = pieces.map (⟨message.binary, ·, false⟩) := by
    conv_rhs => rw [← List.zipIdx_map_fst 0 pieces, map_map]
    refine map_congr_left fun p hp => ?_
    have hlt := (List.mem_zipIdx hp).2.1
    simp
    omega
  rw [sendStreamMessage, h, List.zipIdx_append, map_append, hi]
  simp

theorem receiveFrames_append (handle : StreamHandle) (l l' : List StreamFrame) :
    receiveFrames handle (l ++ l') = receiveFrames (receiveFrames handle l) l' := List.foldl_append

theorem receiveFrames_open {b : Bool} {l : List StreamMessage} :
    ∀ {pieces : List Bytes} (inbound : Bytes), (∀ p ∈ pieces, p.length ≤ chunkBytes) →
      inbound.length + pieces.flatten.length ≤ maxBodyBytes →
      receiveFrames ⟨inbound, l⟩ (pieces.map (⟨b, ·, false⟩)) = ⟨inbound ++ pieces.flatten, l⟩
  | [], inbound, _, _ => by simp [receiveFrames]
  | piece :: pieces, inbound, hs, hf => by
    rw [List.flatten_cons, length_append] at hf
    have hr := receiveFrames_open (b := b) (l := l) (inbound ++ piece)
      (fun p hp => hs p (mem_cons_of_mem _ hp)) (by rw [length_append]; omega)
    have hd : (handleStreamData ⟨inbound, l⟩ ⟨b, piece, false⟩).1 = ⟨inbound ++ piece, l⟩ := by
      unfold handleStreamData
      rw [if_neg (not_lt.2 (hs piece mem_cons_self)), if_neg (by simp; omega)]
      rfl
    rw [map_cons, receiveFrames, List.foldl_cons, hd]
    exact hr.trans (by simp)

theorem exists_pieces (h : message.bytes.length ≤ maxBodyBytes ⌈/⌉ chunkBytes * chunkBytes) :
    ∃ pieces piece, message.pieces = pieces ++ [piece] ∧ pieces.flatten ++ piece = message.bytes
      ∧ (∀ p ∈ pieces, p.length ≤ chunkBytes) ∧ piece.length ≤ chunkBytes
      ∧ pieces.flatten.length ≤ maxBodyBytes := by
  unfold StreamMessage.pieces
  split_ifs with he
  · exact ⟨[], [], rfl, (List.isEmpty_iff.1 he).symm, by simp, by simp, by simp⟩
  have hf := flatten_chunks (n := chunkBytes) (by decide) message.bytes
  rcases List.eq_nil_or_concat' (chunks chunkBytes message.bytes) with heq | ⟨pieces, piece, heq⟩
  · rw [heq] at hf
    simp [← hf] at he
  have hl := length_chunks chunkBytes message.bytes
  have hs : ∀ p ∈ pieces ++ [piece], p.length ≤ chunkBytes := fun p hp =>
    length_le_of_mem_chunks (heq ▸ hp)
  rw [heq] at hf hl
  refine ⟨pieces, piece, heq, by simpa using hf, fun p hp => hs p (mem_append_left _ hp),
    hs piece (mem_append_right _ (mem_singleton_self _)), ?_⟩
  have hc : pieces.length ≤ maxBodyBytes / chunkBytes := by
    have hle : message.bytes.length ⌈/⌉ chunkBytes ≤ maxBodyBytes ⌈/⌉ chunkBytes :=
      (ceilDiv_le_iff_le_mul (by decide)).2 h
    have hn : maxBodyBytes ⌈/⌉ chunkBytes = maxBodyBytes / chunkBytes + 1 := by decide
    rw [length_append, List.length_singleton] at hl
    omega
  calc pieces.flatten.length = (pieces.map List.length).sum := by simp
    _ ≤ pieces.length * chunkBytes := by
      simpa using List.sum_le_card_nsmul (pieces.map List.length) chunkBytes (by
        simpa using fun p hp => hs p (mem_append_left _ hp))
    _ ≤ maxBodyBytes / chunkBytes * chunkBytes := Nat.mul_le_mul_right _ hc
    _ ≤ maxBodyBytes := Nat.div_mul_le_self _ _

theorem receiveFrames_message {forwarded : List StreamMessage}
    (h : message.bytes.length ≤ maxBodyBytes ⌈/⌉ chunkBytes * chunkBytes) :
    receiveFrames ⟨[], forwarded⟩ (sendStreamMessage message)
      = ⟨[], forwarded ++ [message].filter (·.bytes.length ≤ maxBodyBytes)⟩ := by
  obtain ⟨pieces, piece, heq, hby, hs, hp, hf⟩ := exists_pieces h
  rw [sendStreamMessage_eq heq, receiveFrames_append, receiveFrames_open [] hs (by simpa using hf)]
  simp only [receiveFrames, List.foldl_cons, List.foldl_nil, handleStreamData, List.nil_append,
    hby, if_neg (not_lt.2 hp)]
  by_cases hb : message.bytes.length ≤ maxBodyBytes
  · rw [if_neg (not_lt.2 hb), if_neg (by simp), dif_pos message.valid]
    simp [hb]
  · rw [if_pos (not_le.1 hb)]
    simp [hb]

/-- Where no message has more chunks than the largest allowed one, the host forwards the messages
that are not too large, in order and unchanged. -/
theorem stream_messages_whole {messages : List StreamMessage}
    (h : ∀ m ∈ messages, m.bytes.length ≤ maxBodyBytes ⌈/⌉ chunkBytes * chunkBytes) :
    receiveFrames {} (messages.flatMap sendStreamMessage)
      = ⟨[], messages.filter (·.bytes.length ≤ maxBodyBytes)⟩ := by
  induction messages using List.reverseRecOn with
  | nil => rfl
  | append_singleton messages message ih =>
    rw [List.flatMap_append, List.flatMap_singleton, receiveFrames_append,
      ih fun m hm => h m (mem_append_left _ hm),
      receiveFrames_message (h message (mem_append_right _ (mem_singleton_self _))), filter_append]

theorem stream_messages_whole_pair : ∃ message : StreamMessage, message.pieces.length = 2
    ∧ receiveFrames {} ([message, ⟨true, [], .inl rfl⟩].flatMap sendStreamMessage)
      = ⟨[], [message, ⟨true, [], .inl rfl⟩]⟩ := by
  obtain ⟨message, hb⟩ : ∃ message : StreamMessage, message.bytes.length = 2 * chunkBytes :=
    ⟨⟨true, List.replicate (2 * chunkBytes) 0, .inl rfl⟩, List.length_replicate⟩
  have hs : 2 * chunkBytes ≤ maxBodyBytes := by decide
  refine ⟨message, ?_, (stream_messages_whole ?_).trans (by simp [hb, hs])⟩
  · rw [StreamMessage.pieces, if_neg (by simp [← List.length_eq_zero_iff, hb, chunkBytes]),
      length_chunks, hb]
    decide
  · simp [hb]
    decide

/-- A message of 44 chunks: the 43rd overflows the buffer, and the last is forwarded. -/
theorem oversized_message_forwards_tail : ∃ message : StreamMessage,
    maxBodyBytes < message.bytes.length ∧ (receiveFrames {} (sendStreamMessage message)).forwarded
        = [⟨true, List.replicate chunkBytes 0, .inl rfl⟩] := by
  obtain ⟨message, hb, hbi⟩ : ∃ message : StreamMessage,
      message.bytes = List.replicate (44 * chunkBytes) 0 ∧ message.binary :=
    ⟨⟨true, _, .inl rfl⟩, rfl, rfl⟩
  have hl : message.bytes.length = 44 * chunkBytes := by rw [hb, List.length_replicate]
  have hpe : message.pieces = List.replicate 44 (List.replicate chunkBytes 0) := by
    rw [StreamMessage.pieces, if_neg fun he => ?_]
    · refine List.eq_replicate_iff.2 ⟨?_, fun piece hpi => ?_⟩
      · rw [length_chunks, hl]
        decide
      · obtain ⟨i, hi, rfl⟩ := mem_map.1 hpi
        have hlt : i < 44 := by
          rw [hl] at hi
          exact List.mem_range.1 hi
        rw [hb, List.drop_replicate, List.take_replicate, min_eq_left]
        simp [chunkBytes]
        omega
    · rw [List.isEmpty_iff.1 he] at hl
      exact absurd hl (by decide)
  obtain ⟨piece, hp⟩ : ∃ piece, piece = List.replicate chunkBytes (0 : UInt8) := ⟨_, rfl⟩
  have hpi : piece.length = chunkBytes := by rw [hp, List.length_replicate]
  simp [← hp] at hpe ⊢
  replace hpe : message.pieces = List.replicate 42 piece ++ [piece] ++ [piece] := hpe
  have hlen : (List.replicate 42 piece).flatten.length = 42 * chunkBytes := by
    rw [List.length_flatten, List.map_replicate, List.sum_replicate, hpi, smul_eq_mul]
  refine ⟨message, by rw [hl]; decide, ?_⟩
  have hs : ∀ p ∈ List.replicate 42 piece, p.length ≤ chunkBytes := fun p hp =>
    (List.eq_of_mem_replicate hp ▸ hpi).le
  have ho := receiveFrames_open (b := true) (l := []) [] hs (by rw [hlen]; decide)
  have hov : maxBodyBytes < 42 * chunkBytes + chunkBytes := by decide
  rw [sendStreamMessage_eq hpe, hbi, map_append, receiveFrames_append, receiveFrames_append, ho]
  generalize (List.replicate 42 piece).flatten = inbound at hlen
  simp [receiveFrames, handleStreamData, hlen, hpi, hov, not_lt.2 (show
    chunkBytes ≤ maxBodyBytes by decide)]

end Choruz.Relay
