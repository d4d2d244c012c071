import Choruz.Relay

/-!
# What a relayed request can reach

What the URL parser makes of an accepted path is its segments without the dots, percent-encoded, and
the encoding spells no other segment of the management path.  So a request reaches Remote Control
management exactly if those segments do; a path without backslashes and dots has the segments the
executor checked.
-/

namespace Choruz.Relay

open Url

variable {targets : ExecutorTargets} {caseSensitiveRoutes : Bool} {path : String}
  {url : List Char} {auth : AuthStyle}

variable {p text s rest : List Char} {u : Url}

theorem not_blank_of_validPath (h : validPath path) : ∀ c ∈ path.toList, isBlank c = false := by
  simp [validPath] at h
  exact fun c hc => Bool.not_eq_true _ ▸ (h.1.2 c hc).1

theorem hash_notMem_of_validPath (h : validPath path) : '#' ∉ path.toList := by
  simp [validPath] at h
  exact h.1.1.1.2

/-- What an accepted path is, where it goes and what it comes to. -/
inductive Resolved (targets : ExecutorTargets) (path : String) : List Char → Url → Prop
  | api {rest : List Char} (hpath : path.toList = "/api/v1/".toList ++ rest)
      (hmanagement : ¬ managementPath.toList ++ ['/'] <+: path.toList) :
      Resolved targets path (targets.apiUrl.text ++ '/' :: ("v1/".toList ++ rest))
        ⟨targets.apiUrl.scheme, targets.apiUrl.authority,
          segments (beforeQuery ("v1/".toList ++ rest))⟩
  | web {rest : List Char} (hpath : path.toList = "/api/".toList ++ rest)
      (hversion : ¬ "/api/v1/".toList <+: path.toList) :
      Resolved targets path (targets.webUrl.text ++ '/' :: ("api/".toList ++ rest))
        ⟨targets.webUrl.scheme, targets.webUrl.authority,
          segments (beforeQuery ("api/".toList ++ rest))⟩

theorem resolved_of_resolveHttpTarget (h : resolveHttpTarget targets path = .ok (url, auth)) :
    validPath path ∧ Resolved targets path url (resolvedUrl targets path) := by
  unfold resolveHttpTarget at h
  by_cases hv : validPath path
  swap
  · rw [if_pos hv] at h
    cases h
  refine ⟨hv, ?_⟩
  rw [if_neg (not_not.2 hv)] at h
  by_cases hm : path = managementPath ∨ managementPath.toList ++ ['/'] <+: path.toList
  · rw [if_pos hm] at h
    cases h
  rw [if_neg hm] at h
  rw [not_or] at hm
  unfold resolvedUrl
  split at h
  next rest hr =>
    cases h
    obtain ⟨pre, hp, hpre⟩ := List.dropPrefix?_eq_some_iff.1 hr
    rw [beq_iff_eq.1 hpre] at hp
    rw [List.append_assoc]
    exact .api hp hm.2
  next hn =>
    split_ifs at h with ha
    cases h
    obtain ⟨rest, hp⟩ := ha
    rw [← hp]
    refine .web hp.symm ?_
    rintro ⟨tail, ht⟩
    have hs := List.dropPrefix?_eq_some_iff.2 ⟨_, ht.symm, beq_self_eq_true _⟩
    cases hn.symm.trans hs

theorem mem_apiRequests (hu : Url.parse url = some u) :
    p ∈ apiRequests targets caseSensitiveRoutes url ↔ targets.apiUrl.serves u ∧ p = u.pathname ∨
        targets.webUrl.serves u ∧ webRewrite caseSensitiveRoutes u.pathname = some p := by
  by_cases ha : targets.apiUrl.serves u = true <;> by_cases hw : targets.webUrl.serves u = true <;>
    simp [apiRequests, hu]

theorem splitOn_of_reachesManagement (h : reachesManagement p) :
    ∃ rest, p.splitOn '/' = [] :: "v1".toList :: "remote-control".toList :: rest := by
  simp only [reachesManagement, decide_eq_true_eq] at h
  obtain rfl | ⟨tail, rfl⟩ := h
  · exact ⟨[], by decide⟩
  refine ⟨tail.splitOn '/', ?_⟩
  have hs : "/v1/remote-control/".toList ++ tail =
      [] ++ '/' :: ("v1".toList ++ '/' :: ("remote-control".toList ++ '/' :: tail)) := rfl
  rw [hs, splitOn_append (by decide), splitOn_append (by decide), splitOn_append (by decide)]

theorem reachesManagement_pathname (h : ∀ s ∈ u.path, '/' ∉ s) :
    reachesManagement u.pathname ↔ atManagement u.path := by
  constructor
  · intro hm
    obtain ⟨rest, hr⟩ := splitOn_of_reachesManagement hm
    rw [splitOn_pathname h, List.cons.injEq] at hr
    simp [atManagement, hr.2]
  · intro hm
    obtain ⟨rest, hr⟩ := List.isPrefixOf_iff_prefix.1 hm
    unfold reachesManagement pathname
    rw [← hr]
    rcases rest with - | ⟨s, rest⟩ <;> simp

theorem webRewrite_pathname (caseSensitiveRoutes : Bool) (h : ∀ s ∈ u.path, '/' ∉ s) :
    (∃ p, webRewrite caseSensitiveRoutes u.pathname = some p ∧ reachesManagement p) ↔
      rewrittenToManagement caseSensitiveRoutes u.path := by
  unfold webRewrite rewrittenToManagement
  rw [splitOn_pathname h]
  rcases hu : u.path with - | ⟨api, - | ⟨version, path⟩⟩
  · simp
  · simp
  have hs : ∀ s ∈ "v1".toList :: path, '/' ∉ s := by
    rw [hu] at h
    simp at h ⊢
    exact h.2.2
  have ha : reachesManagement (['/'].intercalate ([] :: "v1".toList :: path)) ↔
      atManagement ("v1".toList :: path) :=
    reachesManagement_pathname (u := { u with path := "v1".toList :: path }) hs
  have hh : atManagement ("v1".toList :: path) ↔ path.head? = some "remote-control".toList := by
    rcases path with - | ⟨s, path⟩
    · decide
    · rw [atManagement, List.isPrefixOf_cons_cons, List.isPrefixOf_cons_cons, beq_self_eq_true]
      simp only [Bool.true_and, List.isPrefixOf_nil_left, Bool.and_true, beq_iff_eq,
        List.head?_cons, Option.some.injEq]
      exact eq_comm
  dsimp only
  split_ifs with hc
  · simp only [Option.some.injEq, exists_eq_left', ha, hh, hc.1, hc.2.1,
      Bool.eq_false_of_not_eq_true hc.2.2, Bool.not_false, Bool.and_self, Bool.true_and,
      decide_eq_true_eq]
  · refine iff_of_false (by simp) fun hm => hc ?_
    simp only [Bool.and_eq_true, Bool.not_eq_true'] at hm
    exact ⟨hm.1.1.1, hm.1.1.2, by rw [hm.1.2]; simp⟩

theorem pathText_eq_beforeQuery (h : '#' ∉ text) : pathText text = beforeQuery text := by
  induction text with
  | nil => rfl
  | cons c text ih =>
    rw [List.mem_cons, not_or] at h
    have hc : c ≠ '#' := Ne.symm h.1
    rw [pathText, beforeQuery, List.takeWhile_cons, List.takeWhile_cons, ← pathText, ih h.2,
      beforeQuery]
    simp [hc]

theorem beforeQuery_append (hs : '?' ∉ s) (text : List Char) :
    beforeQuery (s ++ text) = s ++ beforeQuery text :=
  List.takeWhile_append_of_pos fun c hc => by simpa using fun h : c = '?' => hs (h ▸ hc)

/-- A text that percent-encoding neither changes nor makes of another. -/
def Literal (t : Segment) : Prop := (∀ c ∈ t, pathSet c = false) ∧ '%' ∉ t

theorem literal_segments :
    Literal "api".toList ∧ Literal "v1".toList ∧ Literal "remote-control".toList := by
  simp [Literal]
  decide

theorem encode_eq_iff {t : Segment} (ht : Literal t) : encode s = t ↔ s = t := by
  constructor
  · intro h
    rw [← h, encode_eq_self (h ▸ ht.2)]
  · rintro rfl
    exact encode_of_forall ht.1

theorem segmentMatches_encode {t : Segment} (ht : Literal t) :
    segmentMatches caseSensitiveRoutes (encode s) t = segmentMatches caseSensitiveRoutes s t := by
  unfold segmentMatches
  rw [Bool.eq_iff_iff]
  split_ifs <;> simp only [decide_eq_true_eq]
  · exact encode_eq_iff ht
  · constructor
    · intro h
      rwa [encode_eq_self fun hm => ht.2 (h ▸ List.mem_map.2 ⟨'%', hm, by decide⟩)] at h
    · intro h
      rwa [encode_of_toLower fun c hc => ht.1 c (h ▸ hc)]

theorem encode_eq_nil : encode s = [] ↔ s = [] := encode_eq_iff ⟨by simp, by simp⟩

theorem atManagement_encode : ∀ path : List Segment,
    atManagement (path.map encode) = atManagement path
  | [] => rfl
  | [_] => by rw [Bool.eq_iff_iff]; simp [atManagement, List.isPrefixOf_iff_prefix]
  | a :: b :: path => by
    have ha : encode a = "v1".toList ↔ a = "v1".toList := encode_eq_iff literal_segments.2.1
    have hb : encode b = "remote-control".toList ↔ b = "remote-control".toList :=
      encode_eq_iff literal_segments.2.2
    rw [Bool.eq_iff_iff]
    simp only [atManagement, List.map_cons, List.isPrefixOf_cons_cons, List.isPrefixOf_nil_left,
      Bool.and_true, Bool.and_eq_true, beq_iff_eq, eq_comm (a := "v1".toList),
      eq_comm (a := "remote-control".toList), ha, hb]

theorem rewrittenToManagement_encode : ∀ path : List Segment,
    rewrittenToManagement caseSensitiveRoutes (path.map encode) =
      rewrittenToManagement caseSensitiveRoutes path
  | [] | [_] => rfl
  | api :: version :: path => by
    have hn : (path.map encode).contains [] = path.contains [] := by
      rw [Bool.eq_iff_iff]
      simp [encode_eq_nil]
    have hh : (path.map encode).head? = some "remote-control".toList ↔
        path.head? = some "remote-control".toList := by
      rcases path with - | ⟨s, path⟩
      · simp
      · simp only [List.map_cons, List.head?_cons, Option.some.injEq]
        exact encode_eq_iff literal_segments.2.2
    simp only [rewrittenToManagement, List.map_cons, hn, hh]
    rw [segmentMatches_encode literal_segments.1, segmentMatches_encode literal_segments.2.1]

/-- Whether a request for a text asks the API server for Remote Control management is seen from
its segments. -/
theorem spares_iff_segments (targets : ExecutorTargets) (caseSensitiveRoutes : Bool) (o : Origin)
    (hv : validPath path) (hsu : text <:+ path.toList) :
    (∀ p ∈ apiRequests targets caseSensitiveRoutes (o.text ++ '/' :: text),
      reachesManagement p = false) ↔ sparesManagement caseSensitiveRoutes targets
        ⟨o.scheme, o.authority, segments (beforeQuery text)⟩ := by
  have hpa := parse_origin o fun c hc => not_blank_of_validPath hv c (hsu.subset hc)
  rw [pathText_eq_beforeQuery fun hc => hash_notMem_of_validPath hv (hsu.subset hc)] at hpa
  have hsl : ∀ s ∈ (segments (beforeQuery text)).map encode, '/' ∉ s := by
    intro s hs
    obtain ⟨t, ht, rfl⟩ := List.mem_map.1 hs
    exact slash_notMem_encode (slash_notMem_of_mem_segments ht)
  have hat := reachesManagement_pathname (u := ⟨o.scheme, o.authority, _⟩) hsl
  have hw := webRewrite_pathname caseSensitiveRoutes (u := ⟨o.scheme, o.authority, _⟩) hsl
  rw [atManagement_encode] at hat
  rw [rewrittenToManagement_encode] at hw
  simp only [sparesManagement, Bool.and_eq_true, Bool.not_eq_true', ← Bool.not_eq_true, not_and,
    ← hat, ← hw]
  constructor
  · intro h
    refine ⟨fun hse => h _ ((mem_apiRequests hpa).2 (.inl ⟨hse, rfl⟩)), fun hse => ?_⟩
    rintro ⟨p, hp, hm⟩
    exact h p ((mem_apiRequests hpa).2 (.inr ⟨hse, hp⟩)) hm
  · rintro ⟨ha, hr⟩ p hp
    rcases (mem_apiRequests hpa).1 hp with ⟨hse, rfl⟩ | ⟨hse, hp⟩
    · exact ha hse
    · exact fun hm => hr hse ⟨p, hp, hm⟩

theorem plainPath_iff : plainPath caseSensitiveRoutes path ↔ '\\' ∉ beforeQuery path.toList ∧
      (∀ s ∈ (beforeQuery path.toList).splitOn '/', isDots s = false) ∧
      beforeQuery path.toList ≠ managementPath.toList ∧
      (segmentMatches caseSensitiveRoutes (((beforeQuery path.toList).splitOn '/').getD 2 [])
          "v1".toList → ((beforeQuery path.toList).splitOn '/').getD 2 [] = "v1".toList) := by
  cases caseSensitiveRoutes <;> simp [plainPath, segmentMatches, and_assoc, imp_iff_not_or]

theorem segments_of_plainPath (hplain : plainPath caseSensitiveRoutes path)
    (hp : path.toList = s ++ '/' :: text) (hs : '?' ∉ s) :
    segments (beforeQuery text) = (beforeQuery text).splitOn '/' := by
  obtain ⟨hb, hd, -, -⟩ := plainPath_iff.1 hplain
  have hq : beforeQuery path.toList = s ++ '/' :: beforeQuery text := by
    rw [hp, beforeQuery_append hs]
    rfl
  rw [hq] at hb hd
  refine segments_of_plain (fun hc => hb (by simp [hc])) fun t ht => hd t ?_
  rw [List.splitOn, List.splitOnP_append_cons _ _ (by simp), List.mem_append]
  exact .inr ht

theorem append_of_beforeQuery {t : List Char} (h : beforeQuery text = s ++ '/' :: t) :
    ∃ rest, text = s ++ '/' :: rest := by
  obtain ⟨rest, hr⟩ := List.takeWhile_prefix (· ≠ '?') (l := text)
  refine ⟨t ++ rest, ?_⟩
  rw [← List.cons_append, ← List.append_assoc, ← h]
  exact hr.symm

section

variable (hplain : plainPath caseSensitiveRoutes path)
include hplain

theorem spares_of_api (hp : path.toList = "/api/v1/".toList ++ rest)
    (hmg : ¬ managementPath.toList ++ ['/'] <+: path.toList) (scheme : Scheme)
    (authority : List Char) : sparesManagement caseSensitiveRoutes targets
      ⟨scheme, authority, segments (beforeQuery ("v1/".toList ++ rest))⟩ := by
  have hs : segments (beforeQuery ("v1/".toList ++ rest)) =
      "v1".toList :: (beforeQuery rest).splitOn '/' := by
    rw [segments_of_plainPath hplain (s := "/api".toList) (by rw [hp]; rfl) (by decide)]
    exact splitOn_append (s := "v1".toList) (by decide) _
  have ha : ¬ atManagement ("v1".toList :: (beforeQuery rest).splitOn '/') := by
    intro hm
    obtain ⟨more, hmo⟩ := List.isPrefixOf_iff_prefix.1 hm
    rcases splitOn_eq_cons (List.cons.inj hmo).2.symm with ⟨hr, -⟩ | ⟨tail, hr, -⟩
    · refine (plainPath_iff.1 hplain).2.2.1 ?_
      rw [hp, beforeQuery_append (by decide), hr]
      rfl
    · obtain ⟨rest', rfl⟩ := append_of_beforeQuery hr
      exact hmg ⟨rest', by rw [hp]; rfl⟩
  have hrew : rewrittenToManagement caseSensitiveRoutes
      ("v1".toList :: (beforeQuery rest).splitOn '/') = false := by
    rcases (beforeQuery rest).splitOn '/' with - | ⟨s, ss⟩
    · rfl
    · cases caseSensitiveRoutes <;> rfl
  simp only [sparesManagement, hs, ha, hrew, Bool.and_false, Bool.not_false, Bool.and_self]

theorem spares_of_web (hp : path.toList = "/api/".toList ++ rest)
    (hv : ¬ "/api/v1/".toList <+: path.toList) (scheme : Scheme) (authority : List Char) :
    sparesManagement caseSensitiveRoutes targets
      ⟨scheme, authority, segments (beforeQuery ("api/".toList ++ rest))⟩ := by
  have hs : (beforeQuery ("api/".toList ++ rest)).splitOn '/' =
      "api".toList :: (beforeQuery rest).splitOn '/' := splitOn_append (s := "api".toList)
    (by decide) _
  have hse : segments (beforeQuery ("api/".toList ++ rest)) =
      "api".toList :: (beforeQuery rest).splitOn '/' := by
    rw [segments_of_plainPath hplain (s := []) (by rw [hp]; rfl) (by decide), hs]
  have hrew : ¬ rewrittenToManagement caseSensitiveRoutes
      ("api".toList :: (beforeQuery rest).splitOn '/') := by
    intro hm
    rcases hss : (beforeQuery rest).splitOn '/' with - | ⟨version, more⟩ <;> rw [hss] at hm
    · cases hm
    simp only [rewrittenToManagement, Bool.and_eq_true] at hm
    have hpa : (beforeQuery path.toList).splitOn '/' = [] :: "api".toList :: version :: more := by
      rw [hp, ← hss, ← hs]
      exact splitOn_append (s := []) (by decide) _
    have hl : version = "v1".toList := by
      have h := (plainPath_iff.1 hplain).2.2.2
      rw [hpa] at h
      exact h hm.1.1.2
    rcases splitOn_eq_cons hss with ⟨-, rfl⟩ | ⟨tail, hr, -⟩
    · exact absurd hm.2 (by simp)
    rw [hl] at hr
    obtain ⟨rest', rfl⟩ := append_of_beforeQuery hr
    exact hv ⟨rest', by rw [hp]; rfl⟩
  have ha : atManagement ("api".toList :: (beforeQuery rest).splitOn '/') = false := rfl
  simp only [sparesManagement, hse, ha, hrew, Bool.and_false, Bool.not_false, Bool.and_self]

end

/-- A request that the executor accepts spares Remote Control management exactly if the path it
resolves to, on the server it goes to, is not at or below the management path; a path in its plain
form always does. -/
theorem plain_request_spares_management (targets : ExecutorTargets) (caseSensitiveRoutes : Bool)
    (path : String) (url : List Char) (auth : AuthStyle)
    (h : resolveHttpTarget targets path = .ok (url, auth)) :
    ((∀ p ∈ apiRequests targets caseSensitiveRoutes url, reachesManagement p = false) ↔
      sparesManagement caseSensitiveRoutes targets (resolvedUrl targets path)) ∧
    (plainPath caseSensitiveRoutes path →
      ∀ p ∈ apiRequests targets caseSensitiveRoutes url, reachesManagement p = false) := by
  obtain ⟨hv, hr⟩ := resolved_of_resolveHttpTarget h
  generalize resolvedUrl targets path = u at hr ⊢
  cases hr with
  | @api rest hp hm =>
    have hs : "v1/".toList ++ rest <:+ path.toList := ⟨"/api/".toList, by rw [hp]; rfl⟩
    have hi := spares_iff_segments targets caseSensitiveRoutes targets.apiUrl hv hs
    exact ⟨hi, fun hplain => hi.2 (spares_of_api hplain hp hm _ _)⟩
  | @web rest hp hver =>
    have hs : "api/".toList ++ rest <:+ path.toList := ⟨"/".toList, by rw [hp]; rfl⟩
    have hi := spares_iff_segments targets caseSensitiveRoutes targets.webUrl hv hs
    exact ⟨hi, fun hplain => hi.2 (spares_of_web hplain hp hver _ _)⟩

section LocalServers

def localTargets : ExecutorTargets where
  apiUrl := ⟨.http, "127.0.0.1:3000".toList, by decide, by decide⟩
  webUrl := ⟨.http, "127.0.0.1:3100".toList, by decide, by decide⟩

def messagesUrl : List Char := "http://127.0.0.1:3000/v1/messages?after=a/../b".toList

theorem plain_request_spares_management_messages :
    resolveHttpTarget localTargets "/api/v1/messages?after=a/../b" = .ok (messagesUrl, .bearer) ∧
      apiRequests localTargets false messagesUrl = ["/v1/messages".toList] ∧
      ∀ p ∈ apiRequests localTargets false messagesUrl, reachesManagement p = false := by
  have h : resolveHttpTarget localTargets "/api/v1/messages?after=a/../b" =
      .ok (messagesUrl, .bearer) := by rfl
  exact ⟨h, by decide +kernel, (plain_request_spares_management localTargets false _ _ _ h).2
    (by decide +kernel)⟩

theorem exists_reachesManagement {tgts : ExecutorTargets} {caseSensitiveRoutes : Bool} {path : String}
    (h : (resolveHttpTarget tgts path).toOption.any (fun t =>
      (apiRequests tgts caseSensitiveRoutes t.1).any reachesManagement)) :
    ∃ url auth, resolveHttpTarget tgts path = .ok (url, auth) ∧
      ∃ p ∈ apiRequests tgts caseSensitiveRoutes url, reachesManagement p := by
  rcases hr : resolveHttpTarget tgts path with e | ⟨url, auth⟩ <;> rw [hr] at h
  · cases h
  · exact ⟨url, auth, rfl, List.any_eq_true.1 h⟩

/-- A dot segment, its percent-encoded spelling, a backslash and a query each lead past the check,
on either server; so does an upper-case version where the web server ignores case. -/
theorem spelled_paths_reach_management :
    (∀ path ∈ ["/api/v1/./remote-control/pairings", "/api/v1/%2E/remote-control/pairings",
        "/api/v1/x/.%2e/remote-control/pairings", "/api/v1\\remote-control/pairings",
        "/api/./v1/remote-control/pairings", "/api/v1/remote-control?"],
      ∃ url auth, resolveHttpTarget localTargets path = .ok (url, auth) ∧
        ∃ p ∈ apiRequests localTargets true url, reachesManagement p) ∧
    ∃ url auth, resolveHttpTarget localTargets "/api/V1/remote-control/pairings" = .ok (url, auth) ∧
        ∃ p ∈ apiRequests localTargets false url, reachesManagement p := by
  refine ⟨fun path hp => exists_reachesManagement ?_, exists_reachesManagement ?_⟩
  · revert path
    decide +kernel
  · decide +kernel

end LocalServers

end Choruz.Relay
