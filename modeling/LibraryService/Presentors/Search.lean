import LibraryService.OpenLibrary.Client
import LibraryService.OpenLibrary.StackAnswers
import LibraryService.Presentors.Http

/-!
# The search route

`OpenLibraryController.search` over the client stack, for any requests side by side.
-/

open Transition LibraryService.Reduced LibraryService.OpenLibrary

namespace LibraryService.Presentors

/-! ## The route -/

structure OpenLibraryBookSchema where
  key : String
  title : String
  authors : List String
  deriving DecidableEq, Repr

structure OpenLibrarySearchSchema where
  books : List OpenLibraryBookSchema
  total : Int
  start : Int
  offset : Int
  deriving DecidableEq, Repr

def openLibraryBookSchema (book : OpenLibraryBook) : OpenLibraryBookSchema :=
  { key := book.key, title := book.title, authors := book.authors }

/-- `OpenLibrarySearchSchema.model_validate(result)`. -/
def openLibrarySearchSchema (result : OpenLibrarySearchResult) : OpenLibrarySearchSchema :=
  { books := result.books.map openLibraryBookSchema
    total := result.total
    start := result.start
    offset := result.offset }

/-- The parameters in the query string of the request. -/
structure SearchRequest where
  query : Given String
  limit : Given Int
  offset : Given Int
  deriving DecidableEq, Repr

/-- `Annotated[str, Parameter(query="query", min_length=3, max_length=127)]`. -/
def searchQueryParam : Given String → Option String
  | .value query => if 3 ≤ query.length ∧ query.length ≤ 127 then some query else none
  | .absent | .null | .unreadable => none

def openLibrarySearchParams (req : SearchRequest) : Option SearchArgs := do
  let query ← searchQueryParam req.query
  let limit ← limitParam req.limit
  let offset ← offsetParam req.offset
  pure { query, limit, offset }

/-- The client stack, and the requests that have come, each with the number of its call. -/
structure SearchServer where
  stack : Stack OpenLibrarySearchResult
  requests : List (SearchRequest × Option Nat)

inductive SearchLabel
  | request (req : SearchRequest)
  | stack (a : StackLabel OpenLibrarySearchResult)

def SearchServer.init (cache : String → Option OpenLibrarySearchResult) : SearchServer :=
  { stack := Stack.init cache, requests := [] }

/-- The handler of a valid request awaits `OpenLibrarySearchQuery.execute`, which is a call of the
cached client. -/
def SearchServer.step (printable : Char → Bool) (s : SearchServer) : SearchLabel → Option SearchServer
  | .request req =>
    match openLibrarySearchParams req with
    | none => some { s with requests := s.requests ++ [(req, none)] }
    | some args => do
      let stack ← s.stack.step printable (.search (inOrder args))
      return { stack, requests := s.requests ++ [(req, some s.stack.calls.length)] }
  | .stack a => do
    let stack ← s.stack.step printable a
    return { s with stack }

/-- The response to a request, once there is one. A handler that was cancelled gives none. -/
def SearchServer.response (detail : SearchRequest → String) (s : SearchServer) (req : SearchRequest) :
    Option Nat → Option (Response OpenLibrarySearchSchema)
  | none => some (errorResponse (.validationException (detail req)))
  | some i =>
    match (s.stack.calls[i]?).map Call.phase with
    | some (.returned result) => some (routed .ok (.ok (openLibrarySearchSchema result)))
    | some (.raised e) => if e.kind = .exception then some (routed .ok (.error e)) else none
    | _ => none

/-! ## The endpoint -/

/-- What the endpoint may answer to these parameters, or its request may raise. -/
abbrev Endpoint := SearchParams → Except Exc OpenLibrarySearchStruct → Prop

def SearchArgs.params (args : SearchArgs) : SearchParams :=
  searchParams args.query args.limit.toNat args.offset.toNat

/-- How `OpenLibraryClient.search` may end. -/
def ClientEnds (endpoint : Endpoint) (args : SearchArgs) (o : Outcome OpenLibrarySearchResult) :
    Prop :=
  ∃ answer, endpoint (SearchArgs.params args) answer ∧
    o = OpenLibrary.search (fun _ => answer) args.query args.limit.toNat args.offset.toNat

/-- The books of an answer that have authors, in the order of the answer. -/
def listed (answer : OpenLibrarySearchStruct) : OpenLibrarySearchSchema where
  books := answer.docs.filterMap fun doc =>
    doc.authorName.map fun authors => { key := doc.key, title := doc.title, authors }
  total := answer.numFound
  start := answer.start
  offset := answer.offset

variable {endpoint : Endpoint} {printable : Char → Bool} {args : SearchArgs}
  {s t : SearchServer} {l : SearchLabel} {ls : List SearchLabel} {detail : SearchRequest → String}

theorem openLibrarySearchSchema_searchResult (answer : OpenLibrarySearchStruct) :
    openLibrarySearchSchema (searchResult answer) = listed answer := by
  simp only [openLibrarySearchSchema, searchResult, listed, List.map_filterMap, bookOfDoc,
    Option.map_map]
  rfl

theorem clientEnds_ok {result : OpenLibrarySearchResult} (h : ClientEnds endpoint args (.ok result)) :
    ∃ answer, endpoint (SearchArgs.params args) (.ok answer) ∧ result = searchResult answer := by
  obtain ⟨answer, hanswer, ho⟩ := h
  cases answer with
  | error e => cases ho
  | ok answer => exact ⟨answer, hanswer, Except.ok.inj ho⟩

theorem clientEnds_error {e : Exc} (h : ClientEnds endpoint args (.error e)) :
    endpoint (SearchArgs.params args) (.error e) := by
  obtain ⟨answer, hanswer, ho⟩ := h
  cases answer with
  | error e' => cases ho; exact hanswer
  | ok answer => cases ho

/-! ## Steps -/

/-- A step in which coroutines of the client end as the endpoint lets them. -/
def SearchStep (printable : Char → Bool) (endpoint : Endpoint) (s : SearchServer) (l : SearchLabel)
    (t : SearchServer) : Prop :=
  ofStep (SearchServer.step printable) s l t ∧
    ∀ a, l = .stack a → Regular (ClientEnds endpoint) s.stack a

/-- What the label is to the stack. -/
def SearchLabel.below : SearchLabel → List (StackLabel OpenLibrarySearchResult)
  | .request req => ((openLibrarySearchParams req).map fun args => .search (inOrder args)).toList
  | .stack a => [a]

theorem step_request {req : SearchRequest} (h : s.step printable (.request req) = some t) :
    (openLibrarySearchParams req = none ∧ t = { s with requests := s.requests ++ [(req, none)] }) ∨
    ∃ args stack, openLibrarySearchParams req = some args ∧
      s.stack.step printable (.search (inOrder args)) = some stack ∧
      t = { stack, requests := s.requests ++ [(req, some s.stack.calls.length)] } := by
  unfold SearchServer.step at h
  cases hparams : openLibrarySearchParams req with
  | none =>
    simp only [hparams] at h
    exact .inl ⟨rfl, (Option.some.inj h).symm⟩
  | some args =>
    simp only [hparams] at h
    obtain ⟨stack, hstack, h⟩ := Option.bind_eq_some_iff.mp h
    exact .inr ⟨args, stack, rfl, hstack, (Option.some.inj h).symm⟩

theorem step_stack {a : StackLabel OpenLibrarySearchResult}
    (h : s.step printable (.stack a) = some t) :
    ∃ stack, s.stack.step printable a = some stack ∧ t = { s with stack } := by
  unfold SearchServer.step at h
  obtain ⟨stack, hstack, h⟩ := Option.bind_eq_some_iff.mp h
  exact ⟨stack, hstack, (Option.some.inj h).symm⟩

/-! ## The invariant -/

/-- The call of a request is for its parameters, and an invalid request has none. -/
def Linked (stack : Stack OpenLibrarySearchResult) (p : SearchRequest × Option Nat) : Prop :=
  match openLibrarySearchParams p.1 with
  | none => p.2 = none
  | some args => ∃ i c, p.2 = some i ∧ stack.calls[i]? = some c ∧ c.search.args = args

structure SearchInv (printable : Char → Bool) (endpoint : Endpoint) (ls : List SearchLabel)
    (s : SearchServer) : Prop where
  upstream : FromUpstream printable (ClientEnds endpoint) s.stack
  blamed : AllBlamed (ClientEnds endpoint) (ls.flatMap SearchLabel.below) s.stack.calls
  linked : ∀ p ∈ s.requests, Linked s.stack p
  distinct : (s.requests.filterMap Prod.snd).Nodup

theorem Linked.step {stack : Stack OpenLibrarySearchResult} {a : StackLabel OpenLibrarySearchResult}
    {p : SearchRequest × Option Nat} (h : Linked s.stack p)
    (hstack : s.stack.step printable a = some stack) : Linked stack p := by
  unfold Linked at h ⊢
  split at h
  · exact h
  · obtain ⟨i, c, hp, hc, hargs⟩ := h
    obtain ⟨c', hc', hsearch⟩ := step_keeps_call hstack hc
    exact ⟨i, c', hp, hc', by rw [hsearch]; exact hargs⟩

theorem Linked.lt {stack : Stack OpenLibrarySearchResult} {p : SearchRequest × Option Nat} {i : Nat}
    (h : Linked stack p) (hi : p.2 = some i) : i < stack.calls.length := by
  unfold Linked at h
  split at h
  · rw [hi] at h; cases h
  · obtain ⟨j, c, hj, hc, -⟩ := h
    obtain rfl := Option.some.inj (hi.symm.trans hj)
    exact (List.getElem?_eq_some_iff.mp hc).1

theorem step_searchInv (h : SearchInv printable endpoint ls s)
    (hstep : SearchStep printable endpoint s l t) : SearchInv printable endpoint (ls ++ [l]) t := by
  obtain ⟨hstep, hregular⟩ := hstep
  cases l with
  | stack a =>
    obtain ⟨stack, hstack, rfl⟩ := step_stack hstep
    have ha := hregular a rfl
    refine ⟨step_fromUpstream h.upstream hstack ha, ?_, fun p hp => (h.linked p hp).step hstack,
      h.distinct⟩
    rw [List.flatMap_append]
    exact step_blamed h.upstream h.blamed hstack ha
  | request req =>
    rcases step_request hstep with ⟨hparams, rfl⟩ | ⟨args, stack, hparams, hstack, rfl⟩
    · have hbelow : SearchLabel.below (.request req) = [] := by
        rw [SearchLabel.below, hparams]
        rfl
      refine ⟨h.upstream, ?_, fun p hp => ?_, ?_⟩
      · rw [List.flatMap_append, List.flatMap_singleton, hbelow, List.append_nil]
        exact h.blamed
      · rcases List.mem_append.mp hp with hp | hp
        · exact h.linked p hp
        · obtain rfl := List.mem_singleton.mp hp
          simp only [Linked, hparams]
      · rw [List.filterMap_append, List.filterMap_cons_none rfl, List.filterMap_nil, List.append_nil]
        exact h.distinct
    · have hbelow : SearchLabel.below (.request req) = [.search (inOrder args)] := by
        rw [SearchLabel.below, hparams]
        rfl
      have hcall : Regular (ClientEnds endpoint) s.stack (.search (inOrder args)) :=
        regular_search (inOrder args)
      refine ⟨step_fromUpstream h.upstream hstack hcall, ?_, fun p hp => ?_, ?_⟩
      · rw [List.flatMap_append, List.flatMap_singleton, hbelow]
        exact step_blamed h.upstream h.blamed hstack hcall
      · rcases List.mem_append.mp hp with hp | hp
        · exact (h.linked p hp).step hstack
        · obtain rfl := List.mem_singleton.mp hp
          obtain rfl := Option.some.inj hstack
          simp only [Linked, hparams]
          exact ⟨_, ⟨inOrder args, .reading, .none⟩, rfl, List.getElem?_concat_length, rfl⟩
      · -- The number of the new call is above those of all calls before.
        rw [List.filterMap_append, List.nodup_append]
        refine ⟨h.distinct, by simp, fun i hi j hj => ?_⟩
        obtain ⟨p, hp, hpi⟩ := List.mem_filterMap.mp hi
        have hlt := (h.linked p hp).lt hpi
        obtain rfl := List.mem_singleton.mp hj
        exact Nat.ne_of_lt hlt

/-! ## What the clients see -/

/-- After these steps, a request with parameters out of bounds is a 422 that made no call. Any other
has a call of its own, and if it is answered, then with what the endpoint answered for just its
parameters, or with an exception that the endpoint's request for them or the cache raised at this
call. -/
structure SearchServed (endpoint : Endpoint) (detail : SearchRequest → String)
    (ls : List SearchLabel) (s : SearchServer) : Prop where
  invalid : ∀ p ∈ s.requests, openLibrarySearchParams p.1 = none →
    p.2 = none ∧ s.response detail p.1 p.2 =
      some (exceptionJsonResponse .unprocessableEntity (detail p.1))
  valid : ∀ p ∈ s.requests, ∀ args, openLibrarySearchParams p.1 = some args →
    ∃ i, p.2 = some i ∧ ∀ response, s.response detail p.1 p.2 = some response →
      (∃ answer, endpoint (SearchArgs.params args) (.ok answer) ∧
        response = ⟨.ok, .body (listed answer)⟩) ∨
      ∃ e, response = errorResponse (.exc e) ∧
        (endpoint (SearchArgs.params args) (.error e) ∨ .stack (.cacheFails i e) ∈ ls)
  distinct : (s.requests.filterMap Prod.snd).Nodup

theorem mem_below {i : Nat} {e : Exc} (h : .cacheFails i e ∈ ls.flatMap SearchLabel.below) :
    .stack (.cacheFails i e) ∈ ls := by
  obtain ⟨l, hl, hmem⟩ := List.mem_flatMap.mp h
  cases l with
  | stack a => rwa [List.mem_singleton.mp hmem]
  | request req =>
    rw [SearchLabel.below, Option.mem_toList, Option.map_eq_some_iff] at hmem
    obtain ⟨args, -, hsearch⟩ := hmem
    cases hsearch

theorem SearchInv.served (h : SearchInv printable endpoint ls s) (detail : SearchRequest → String) :
    SearchServed endpoint detail ls s where
  invalid p hp hparams := by
    have hlinked := h.linked p hp
    simp only [Linked, hparams] at hlinked
    rw [hlinked]
    exact ⟨rfl, rfl⟩
  valid p hp args hparams := by
    have hlinked := h.linked p hp
    simp only [Linked, hparams] at hlinked
    obtain ⟨i, c, hi, hc, hargs⟩ := hlinked
    refine ⟨i, hi, fun response hresponse => ?_⟩
    simp only [hi, SearchServer.response, hc, Option.map_some] at hresponse
    split at hresponse
    · rename_i result hphase
      have hends := h.upstream.produced ((h.upstream.sound.call hc).answer result
        (.inr (Option.some.inj hphase)))
      rw [hargs] at hends
      obtain ⟨answer, hanswer, rfl⟩ := clientEnds_ok hends
      rw [openLibrarySearchSchema_searchResult] at hresponse
      exact .inl ⟨answer, hanswer, (Option.some.inj hresponse).symm⟩
    · rename_i e hphase
      split at hresponse
      · rename_i hkind
        refine .inr ⟨e, (Option.some.inj hresponse).symm, ?_⟩
        rcases h.blamed i c e hc (Option.some.inj hphase) with hends | hcache | ⟨rfl, -⟩
        · rw [hargs] at hends
          exact .inl (clientEnds_error hends)
        · exact .inr (mem_below hcache)
        · cases hkind
      · cases hresponse
    · cases hresponse
  distinct := h.distinct

/-- **The search route shows what the endpoint answers**, in every state that a run of requests, of
the loop, of the cache and of cancelled handlers reaches from a cache of the endpoint's answers. -/
theorem search_requests_served {cache : String → Option OpenLibrarySearchResult}
    (hcache : ∀ call result, cache (cacheKey printable call) = some result →
      ∃ answer, endpoint (SearchArgs.params call.args) (.ok answer) ∧ result = searchResult answer)
    (h : Run (SearchStep printable endpoint) (SearchServer.init cache) ls s)
    (detail : SearchRequest → String) : SearchServed endpoint detail ls s := by
  have hends : ∀ call result, cache (cacheKey printable call) = some result →
      ClientEnds endpoint call.args (.ok result) := by
    intro call result hresult
    obtain ⟨answer, hanswer, rfl⟩ := hcache call result hresult
    exact ⟨.ok answer, hanswer, rfl⟩
  have hinv : SearchInv printable endpoint ls s := by
    induction h with
    | nil => exact ⟨init_fromUpstream hends, by simp [AllBlamed, SearchServer.init, Stack.init],
        by simp [SearchServer.init], by simp [SearchServer.init]⟩
    | snoc _ hstep ih => exact step_searchInv ih hstep
  exact hinv.served detail

def iliadAnswer : OpenLibrarySearchStruct where
  numFound := 2
  start := 0
  offset := 0
  docs := [⟨"Iliad", "/works/OL1W", some ["Homer"]⟩, ⟨"Iliad, a pop-up book", "/works/OL2W", none⟩]

def searchIliad : SearchRequest := ⟨.value "iliad", .absent, .absent⟩

/-- Two requests for one search, of which the first is cancelled, and one that is too short. -/
def searches : List SearchLabel :=
  [.request searchIliad, .request searchIliad, .request ⟨.value "il", .absent, .absent⟩] ++
    ([.cacheGet 0, .cacheGet 1, .resumeGet 0, .resumeGet 1, .loop (.startRunner 0 none), .cancel 0,
      .loop (.stepRunner 0 (some (.ok (searchResult iliadAnswer)))), .loop (.deliver 1),
      .resumeWaiter 1, .cacheSet 1, .resumeSet 1].map .stack)

theorem searches_regular {a : StackLabel OpenLibrarySearchResult} (ha : .stack a ∈ searches)
    (stack : Stack OpenLibrarySearchResult) :
    Regular (ClientEnds fun _ answer => answer = .ok iliadAnswer) stack a := by
  simp only [searches, List.cons_append, List.nil_append, List.map_cons, List.map_nil, List.mem_cons,
    SearchLabel.stack.injEq, List.not_mem_nil, or_false, reduceCtorEq, false_or] at ha
  rcases ha with rfl | rfl | rfl | rfl | rfl | rfl | rfl | rfl | rfl | rfl | rfl
  all_goals
    refine ⟨fun b hb => ?_, fun b n o args hb ho _ => ?_⟩
    · cases hb <;> trivial
    · cases hb <;> cases ho <;> exact ⟨.ok iliadAnswer, rfl, rfl⟩

theorem search_requests_served_iliad :
    ∃ s, exec (SearchServer.step fun _ => true) (SearchServer.init fun _ => none) searches = some s ∧
      SearchServed (fun _ answer => answer = .ok iliadAnswer) (fun _ => "") searches s ∧
      s.response (fun _ => "") searchIliad (some 0) = none ∧
      s.response (fun _ => "") searchIliad (some 1) = some ⟨.ok, .body (listed iliadAnswer)⟩ := by
  have hend : ((exec (SearchServer.step fun _ => true) (SearchServer.init fun _ => none) searches).map
      fun s => [s.response (fun _ => "") searchIliad (some 0),
        s.response (fun _ => "") searchIliad (some 1)]) =
      some [none, some ⟨.ok, .body (listed iliadAnswer)⟩] := by
    decide
  obtain ⟨s, hs, hresponses⟩ := Option.map_eq_some_iff.mp hend
  have hrun : Run (SearchStep (fun _ => true) fun _ answer => answer = .ok iliadAnswer)
      (SearchServer.init fun _ => none) searches s :=
    ((run_of_exec hs).restrict (P := fun l => l ∈ searches) fun l hl => hl).mono fun x l y hxy =>
      ⟨hxy.1, fun a ha => searches_regular (ha ▸ hxy.2) x.stack⟩
  simp only [List.cons.injEq, and_true] at hresponses
  exact ⟨s, hs, search_requests_served (fun _ _ h => by cases h) hrun _, hresponses⟩

end LibraryService.Presentors
