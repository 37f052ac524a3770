import Mathlib.Data.List.Infix
import Mathlib.Data.List.Nodup
import Marketplace.Lib.Run

/-!
# The lists of the administrators

`admin_controllers.dart`: a list of rows under a filter, a page at a time. Every operation keeps
what it has found in memory, waits for the server, and then replaces what is in memory. A reply that
is overtaken by the reply to a later `applyFilter` brings the rows of the earlier filter back.
-/

namespace Marketplace

open Lib

/-! ### Filters and listings -/

/-- `AdminUsersFilter`. -/
structure AdminUsersFilter where
  q : Option String := none
  role : Option String := none
  status : Option String := none
deriving DecidableEq, Repr

/-- `AdminOrdersFilter`. -/
structure AdminOrdersFilter where
  status : Option String := none
deriving DecidableEq, Repr

/-- What the server lists for a filter, and the page that it answers for a cursor. -/
structure PagedListing (F R : Type) where
  rows : F → List R
  nodup : ∀ filter, (rows filter).Nodup
  page : F → Option String → List R × Option String
  /-- The cursor that continues after the first rows; none when there are no more. -/
  cursorAt : F → ℕ → Option String

/-- Each page continues the rows where its cursor says, and carries the cursor that continues it. -/
structure PagedListing.PagedCorrectly {F R : Type} (l : PagedListing F R) : Prop where
  cursorAt_none : ∀ filter k, l.cursorAt filter k = none ↔ (l.rows filter).length ≤ k
  first : ∀ filter, ∃ n, l.page filter none = ((l.rows filter).take n, l.cursorAt filter n)
  next : ∀ filter k cursor, l.cursorAt filter k = some cursor →
    ∃ n, l.page filter (some cursor) =
      (((l.rows filter).drop k).take n, l.cursorAt filter (k + n))

/-! ### The controller -/

/-- `AdminUsersState` and `AdminOrdersState`. -/
structure ListState (F R : Type) where
  filter : F
  rows : List R
  nextCursor : Option String
  isLoadingMore : Bool
deriving DecidableEq

/-- What a request to the server is for: `applyFilter`, `loadMore` on what it has found in memory,
and `suspendUser` or `unsuspendUser`. -/
inductive ListRequest (F R : Type)
  | applyFilter (filter : F)
  | loadMore (current : ListState F R)
  | change
deriving DecidableEq

/-- A request in flight. The calls of `applyFilter` are numbered; a `loadMore` has the number of
the call whose rows it continues. -/
structure InFlight (F R : Type) where
  request : ListRequest F R
  number : ℕ
deriving DecidableEq

/-- The controller and its requests. -/
structure ListController (F R : Type) where
  /-- `state.valueOrNull`, which loading and errors leave as it is. -/
  value : Option (ListState F R)
  inFlight : List (InFlight F R)
  /-- The number of the `applyFilter` whose rows are in memory. -/
  shown : ℕ
  /-- The number of the calls of `applyFilter`, those after a change included. -/
  applied : ℕ
  /-- The filter and the number of the last call of `applyFilter` that is not one after a change. -/
  lastFilter : F
  lastNumber : ℕ
  /-- It has succeeded, or the reload of a change after it. -/
  succeeded : Bool
deriving DecidableEq

namespace ListController

variable {F R : Type}

/-- What can happen next: a call, or a reply or a failure of a request. -/
inductive Input (F : Type)
  | applyFilter (filter : F)
  | loadMore
  | change
  | reply (i : ℕ) (ok : Bool)
deriving DecidableEq

/-- `build`: the first page without a filter is asked for. -/
def start (default : F) : ListController F R :=
  { value := none, inFlight := [⟨.applyFilter default, 0⟩], shown := 0, applied := 0,
    lastFilter := default, lastNumber := 0, succeeded := false }

variable (l : PagedListing F R) (default : F) (s : ListController F R)

/-- `applyFilter`, up to its `await`. -/
def applyFilter (filter : F) : ListController F R :=
  { s with applied := s.applied + 1,
           inFlight := s.inFlight ++ [⟨.applyFilter filter, s.applied + 1⟩] }

/-- `loadMore`, up to its `await`. -/
def loadMore : ListController F R :=
  match s.value with
  | none => s
  | some current =>
    if current.nextCursor = none ∨ current.isLoadingMore then s
    else { s with value := some { current with isLoadingMore := true },
                  inFlight := s.inFlight ++ [⟨.loadMore current, s.shown⟩] }

/-- The state of a first page. -/
def firstPage (filter : F) : ListState F R :=
  let page := l.page filter none
  { filter, rows := page.1, nextCursor := page.2, isLoadingMore := false }

/-- The state with one more page. -/
def nextPage (current : ListState F R) : ListState F R :=
  let page := l.page current.filter current.nextCursor
  { current with rows := current.rows ++ page.1, nextCursor := page.2, isLoadingMore := false }

/-- The filter of the rows in memory. -/
def filterInMemory : F := (s.value.map ListState.filter).getD default

/-- An operation, from the reply to its request. -/
def answer (sent : InFlight F R) (ok : Bool) : ListController F R :=
  match sent.request, ok with
  | .applyFilter filter, true =>
    { s with value := some (firstPage l filter), shown := sent.number,
             succeeded := s.succeeded || decide (s.lastNumber ≤ sent.number) }
  | .loadMore current, true =>
    { s with value := some (nextPage l current), shown := sent.number }
  | .change, true => s.applyFilter (s.filterInMemory default)
  | _, false => s

def step (s : ListController F R) : Input F → ListController F R
  | .applyFilter filter =>
    { s.applyFilter filter with lastFilter := filter, lastNumber := s.applied + 1,
                                succeeded := false }
  | .loadMore => s.loadMore
  | .change => { s with inFlight := s.inFlight ++ [⟨.change, s.applied⟩] }
  | .reply i ok =>
    match s.inFlight[i]? with
    | none => s
    | some sent => { s with inFlight := s.inFlight.eraseIdx i }.answer l default sent ok

/-! ### What is to hold -/

/-- The rows are the first ones of the listing for the filter, each once, and the cursor is the one
that continues them. -/
structure Shows (filter : F) (v : ListState F R) : Prop where
  nodup : v.rows.Nodup
  continues : ∃ k, v.rows = (l.rows filter).take k ∧ v.nextCursor = l.cursorAt filter k

/-- With nothing in flight, the rows are those of the filter that was applied last. -/
def Right : Prop :=
  s.inFlight = [] → s.succeeded = true → ∃ v, s.value = some v ∧ Shows l s.lastFilter v

/-- The filter, the rows and the cursor in memory. -/
def content : Option (F × List R × Option String) :=
  s.value.map fun v => (v.filter, v.rows, v.nextCursor)

/-- Neither the start of a `loadMore` nor its failure changes them. -/
def KeepsContent (s : ListController F R) (input : Input F) : Prop :=
  (input = .loadMore ∨ ∃ i current number, input = .reply i false ∧
    s.inFlight[i]? = some ⟨.loadMore current, number⟩) →
      (step l default s input).content = s.content

/-- No reply comes after the reply to a later `applyFilter`, and the reload after a change finds the
filter that was applied last in memory. -/
def InTurn (s : ListController F R) : Input F → Prop
  | .reply i true => ∀ sent, s.inFlight[i]? = some sent →
    match sent.request with
    | .change => s.filterInMemory default = s.lastFilter
    | _ => s.shown ≤ sent.number
  | _ => True

/-- A reply that is in turn, in terms of the request it answers. -/
theorem inTurn_reply {s : ListController F R} {i : ℕ} {sent : InFlight F R}
    (hsent : s.inFlight[i]? = some sent) :
    InTurn default s (.reply i true) ↔
      (sent.request = .change → s.filterInMemory default = s.lastFilter) ∧
        (sent.request ≠ .change → s.shown ≤ sent.number) := by
  constructor
  · intro h
    have hturn := h sent hsent
    rcases sent with ⟨request, number⟩
    cases request <;> simpa using hturn
  · intro h sent' hsent'
    obtain rfl := Option.some.inj (hsent.symm.trans hsent')
    rcases sent with ⟨request, number⟩
    cases request <;> simpa using h

instance [DecidableEq F] [DecidableEq R] : ∀ input : Input F, Decidable (InTurn default s input)
  | .reply i true =>
    match hsent : s.inFlight[i]? with
    | none => isTrue fun sent hsome => by
      rw [hsent] at hsome
      cases hsome
    | some sent => decidable_of_iff' _ (inTurn_reply default hsent)
  | .reply _ false => inferInstanceAs (Decidable True)
  | .applyFilter _ => inferInstanceAs (Decidable True)
  | .loadMore => inferInstanceAs (Decidable True)
  | .change => inferInstanceAs (Decidable True)

/-! ### The invariant -/

/-- The request is one for rows of the filter. -/
def Asks (filter : F) : ListRequest F R → Prop
  | .applyFilter f => f = filter
  | .loadMore current => current.filter = filter
  | .change => True

/-- Whatever is numbered from the last `applyFilter` on is for its filter. -/
structure Inv : Prop where
  value : ∀ v, s.value = some v → Shows l v.filter v
  more : ∀ current number, ⟨.loadMore current, number⟩ ∈ s.inFlight →
    Shows l current.filter current ∧ current.nextCursor ≠ none
  shown_le : s.shown ≤ s.applied
  number_le : ∀ sent ∈ s.inFlight, sent.number ≤ s.applied
  valueAsked : s.lastNumber ≤ s.shown → ∀ v, s.value = some v → v.filter = s.lastFilter
  asked : ∀ sent ∈ s.inFlight, s.lastNumber ≤ sent.number → Asks s.lastFilter sent.request
  succeeded : s.succeeded = true → s.lastNumber ≤ s.shown ∧ s.value.isSome

section Invariant

variable {l default s}

/-- The first page shows what the filter asks for. -/
theorem shows_firstPage (h : l.PagedCorrectly) (filter : F) :
    Shows l filter (firstPage l filter) := by
  obtain ⟨n, hpage⟩ := h.first filter
  refine ⟨?_, n, ?_, ?_⟩ <;> simp only [firstPage, hpage]
  exact (l.nodup filter).sublist (List.take_sublist ..)

/-- The next page continues the rows. -/
theorem shows_nextPage (h : l.PagedCorrectly) {current : ListState F R}
    (hshows : Shows l current.filter current) (hmore : current.nextCursor ≠ none) :
    Shows l current.filter (nextPage l current) := by
  obtain ⟨k, hrows, hcursor⟩ := hshows.continues
  obtain ⟨cursor, hsome⟩ := Option.ne_none_iff_exists'.mp hmore
  obtain ⟨n, hpage⟩ := h.next current.filter k cursor (hcursor.symm.trans hsome)
  have hrows' : (nextPage l current).rows = (l.rows current.filter).take (k + n) := by
    simp only [nextPage, hsome, hpage, hrows]
    rw [List.take_add]
  refine ⟨?_, k + n, hrows', ?_⟩
  · rw [hrows']
    exact (l.nodup _).sublist (List.take_sublist ..)
  · simp only [nextPage, hsome, hpage]

/-- The rows and the cursor decide what is shown. -/
theorem Shows.congr {filter : F} {v v' : ListState F R} (h : Shows l filter v)
    (hrows : v'.rows = v.rows) (hcursor : v'.nextCursor = v.nextCursor) : Shows l filter v' := by
  obtain ⟨hnodup, k, htake, hat⟩ := h
  exact ⟨by rwa [hrows], k, hrows.trans htake, hcursor.trans hat⟩

/-- The controller starts within its invariant. -/
theorem inv_start : (start default : ListController F R).Inv l where
  value := nofun
  more := by simp [start]
  shown_le := le_rfl
  number_le := by simp [start]
  valueAsked _ := nofun
  asked := by simp [start, Asks]
  succeeded := nofun

/-- A request is answered, and is in flight no more. -/
theorem Inv.erase (h : s.Inv l) (i : ℕ) :
    Inv l { s with inFlight := s.inFlight.eraseIdx i } :=
  { h with
    more := fun current number hmem => h.more current number (List.mem_of_mem_eraseIdx hmem)
    number_le := fun sent hmem => h.number_le sent (List.mem_of_mem_eraseIdx hmem)
    asked := fun sent hmem => h.asked sent (List.mem_of_mem_eraseIdx hmem) }

/-- One more request is in flight. -/
theorem Inv.send (h : s.Inv l) {sent : InFlight F R}
    (hmore : ∀ current, sent.request = .loadMore current →
      Shows l current.filter current ∧ current.nextCursor ≠ none)
    (hnumber : sent.number ≤ s.applied)
    (hasked : s.lastNumber ≤ sent.number → Asks s.lastFilter sent.request) :
    Inv l { s with inFlight := s.inFlight ++ [sent] } := by
  refine { h with
    more := fun current number hmem => ?_
    number_le := forall_mem_concat h.number_le hnumber
    asked := forall_mem_concat h.asked hasked }
  rcases List.mem_append.mp hmem with hold | hnew
  · exact h.more current number hold
  · exact hmore current (by rw [← List.mem_singleton.mp hnew])

/-- The calls of `applyFilter` are counted. -/
theorem Inv.count (h : s.Inv l) : Inv l { s with applied := s.applied + 1 } :=
  { h with
    shown_le := Nat.le_succ_of_le h.shown_le
    number_le := fun sent hmem => Nat.le_succ_of_le (h.number_le sent hmem) }

/-- Applying a filter in turn keeps the invariant. -/
theorem Inv.applyFilter (h : s.Inv l) {filter : F}
    (hfilter : s.lastNumber ≤ s.applied + 1 → filter = s.lastFilter) :
    (s.applyFilter filter).Inv l :=
  h.count.send nofun le_rfl hfilter

/-- A filter is applied; nothing that is older counts any more. -/
theorem Inv.applied (h : s.Inv l) (filter : F) :
    (step l default s (.applyFilter filter)).Inv l := by
  have hshown := h.shown_le
  have hnew : Inv l { s with applied := s.applied + 1, lastFilter := filter,
                             lastNumber := s.applied + 1, succeeded := false } :=
    { h.count with
      valueAsked := fun hle => by
        have hle' : s.applied + 1 ≤ s.shown := hle
        omega
      asked := fun sent hmem hle => by
        have hle' : s.applied + 1 ≤ sent.number := hle
        have hsent := h.number_le sent hmem
        omega
      succeeded := nofun }
  exact hnew.send nofun le_rfl fun _ => rfl

/-- Asking for more keeps the invariant. -/
theorem Inv.loadMore (h : s.Inv l) : s.loadMore.Inv l := by
  unfold ListController.loadMore
  split
  · exact h
  · next current hvalue =>
    split
    · exact h
    · next hmore =>
      have hshows := h.value current hvalue
      have hloading : Inv l { s with value := some { current with isLoadingMore := true } } :=
        { h with
          value := fun v hv => Option.some.inj hv ▸ hshows.congr rfl rfl
          valueAsked := fun hle v hv => Option.some.inj hv ▸ h.valueAsked hle current hvalue
          succeeded := fun hs => ⟨(h.succeeded hs).1, rfl⟩ }
      refine hloading.send ?_ h.shown_le fun hle => h.valueAsked hle current hvalue
      intro current' hrequest
      obtain rfl := ListRequest.loadMore.inj hrequest
      exact ⟨hshows, fun hnone => hmore (.inl hnone)⟩

/-- A change on the server keeps the invariant. -/
theorem Inv.change (h : s.Inv l) : (step l default s .change).Inv l :=
  h.send nofun le_rfl fun _ => trivial

/-- Rows that are not older than those in memory take their place. -/
theorem Inv.replace (h : s.Inv l) {v : ListState F R} {number : ℕ} {succeeded : Bool}
    (hshows : Shows l v.filter v) (hnumber : number ≤ s.applied) (hnewer : s.shown ≤ number)
    (hasked : s.lastNumber ≤ number → v.filter = s.lastFilter)
    (hsucceeded : succeeded = true → s.succeeded = true ∨ s.lastNumber ≤ number) :
    Inv l { s with value := some v, shown := number, succeeded := succeeded } :=
  { h with
    value := fun v' hv' => Option.some.inj hv' ▸ hshows
    shown_le := hnumber
    valueAsked := fun hle v' hv' => Option.some.inj hv' ▸ hasked hle
    succeeded := fun hs => by
      refine ⟨?_, rfl⟩
      rcases hsucceeded hs with hold | hle
      · exact (h.succeeded hold).1.trans hnewer
      · exact hle }

/-- The reply to a request. -/
theorem Inv.reply (h : s.Inv l) (hpaged : l.PagedCorrectly) {i : ℕ} {ok : Bool}
    (hturn : InTurn default s (.reply i ok)) : (step l default s (.reply i ok)).Inv l := by
  simp only [step]
  split
  · exact h
  · next sent hsent =>
    have hmem := List.mem_of_getElem? hsent
    have herase := h.erase i
    have hnumber := h.number_le sent hmem
    have hasked := h.asked sent hmem
    rcases sent with ⟨request, number⟩
    cases ok with
    | false => cases request <;> exact herase
    | true =>
      have hcond := hturn _ hsent
      cases request with
      | applyFilter filter =>
        refine herase.replace (shows_firstPage hpaged filter) hnumber hcond hasked fun hs => ?_
        simpa using hs
      | loadMore current =>
        obtain ⟨hshows, hmore⟩ := h.more current number hmem
        exact herase.replace (shows_nextPage hpaged hshows hmore) hnumber hcond hasked .inl
      | change => exact herase.applyFilter fun _ => hcond

/-- Every input in turn keeps the invariant. -/
theorem Inv.step (h : s.Inv l) (hpaged : l.PagedCorrectly) {input : Input F}
    (hturn : InTurn default s input) : (step l default s input).Inv l := by
  cases input with
  | applyFilter filter => exact h.applied filter
  | loadMore => exact h.loadMore
  | change => exact h.change
  | reply i ok => exact h.reply hpaged hturn

/-- Under the invariant the list shown is right. -/
theorem Inv.right (h : s.Inv l) : s.Right l := by
  intro _ hsucceeded
  obtain ⟨hnumber, hsome⟩ := h.succeeded hsucceeded
  obtain ⟨v, hv⟩ := Option.isSome_iff_exists.mp hsome
  refine ⟨v, hv, ?_⟩
  rw [← h.valueAsked hnumber v hv]
  exact h.value v hv

/-- In every state. -/
theorem keepsContent (s : ListController F R) (input : Input F) :
    KeepsContent l default s input := by
  rintro (rfl | ⟨i, current, number, rfl, hsent⟩)
  · simp only [ListController.step, ListController.loadMore, content]
    split
    · rfl
    · next current hvalue =>
      split
      · rfl
      · rw [hvalue]
        rfl
  · simp only [ListController.step, hsent]
    rfl

/-- The runs of one list. -/
theorem right_of_inTurn (hpaged : l.PagedCorrectly) {run : List (Input F)}
    (h : EachStep (ListController.step l default) (InTurn default) (start default) run) :
    (after (ListController.step l default) (start default) run).Right l ∧
      EachStep (ListController.step l default) (KeepsContent l default) (start default) run :=
  ⟨(h.invariant (I := Inv l) (fun _ _ hs hturn => hs.step hpaged hturn) inv_start).right,
    eachStep_iff.mpr fun _ _ _ _ => keepsContent _ _⟩

end Invariant

end ListController

open ListController

/-- `AdminUsersController`. -/
def AdminUsersController.step {R : Type} (l : PagedListing AdminUsersFilter R) :
    ListController AdminUsersFilter R → Input AdminUsersFilter →
      ListController AdminUsersFilter R :=
  ListController.step l {}

/-- `AdminOrdersController`, which has no `suspend` and no `unsuspend`. -/
def AdminOrdersController.step {R : Type} (l : PagedListing AdminOrdersFilter R) :
    ListController AdminOrdersFilter R → Input AdminOrdersFilter →
      ListController AdminOrdersFilter R :=
  ListController.step l {}

/-- In every run in which no reply is overtaken, both lists show the rows for the filter that was
applied last, and a `loadMore` that fails changes nothing. -/
theorem admin_lists_right {U O : Type} (users : PagedListing AdminUsersFilter U)
    (orders : PagedListing AdminOrdersFilter O) (husers : users.PagedCorrectly)
    (horders : orders.PagedCorrectly) :
    (∀ run, EachStep (AdminUsersController.step users) (InTurn {}) (start {}) run →
      (after (AdminUsersController.step users) (start {}) run).Right users ∧
        EachStep (AdminUsersController.step users) (KeepsContent users {}) (start {}) run) ∧
    ∀ run, EachStep (AdminOrdersController.step orders) (InTurn {}) (start {}) run →
      (after (AdminOrdersController.step orders) (start {}) run).Right orders ∧
        EachStep (AdminOrdersController.step orders) (KeepsContent orders {}) (start {}) run :=
  ⟨fun _ h => right_of_inTurn husers h, fun _ h => right_of_inTurn horders h⟩

namespace Sample

/-- Five rows, of which a status selects three; two to a page. -/
def byStatus {F : Type} (status : F → Option String) : PagedListing F ℕ where
  rows filter := if (status filter).isSome then [0, 2, 4] else [0, 1, 2, 3, 4]
  nodup filter := by split <;> decide
  page filter cursor :=
    let rows := if (status filter).isSome then [0, 2, 4] else [0, 1, 2, 3, 4]
    let k := (cursor.map String.length).getD 0
    ((rows.drop k).take 2,
      if rows.length ≤ k + 2 then none else some (String.ofList (List.replicate (k + 2) '.')))
  cursorAt filter k :=
    let rows := if (status filter).isSome then [0, 2, 4] else [0, 1, 2, 3, 4]
    if rows.length ≤ k then none else some (String.ofList (List.replicate k '.'))

/-- A listing filtered by status is paged correctly. -/
theorem byStatus_pagedCorrectly {F : Type} (status : F → Option String) :
    (byStatus status).PagedCorrectly where
  cursorAt_none filter k := by simp [byStatus]
  first filter := ⟨2, rfl⟩
  next filter k cursor h := by
    have hlength : cursor.length = k := by
      simp only [byStatus, Option.ite_none_left_eq_some, Option.some.injEq] at h
      rw [← h.2, String.length_ofList, List.length_replicate]
    exact ⟨2, by simp [byStatus, hlength]⟩

/-- Both pages, then a filter and its first page; a user is suspended, the first page is loaded
again, and a `loadMore` fails. -/
def suspendedOnce : List (Input AdminUsersFilter) :=
  [.reply 0 true, .loadMore, .reply 0 true, .applyFilter { status := some "active" },
   .reply 0 true, .change, .reply 0 true, .reply 0 true, .loadMore, .reply 0 false]

/-- One page, then a filter while the next page is loaded, and both of its pages. -/
def browsing : List (Input AdminOrdersFilter) :=
  [.reply 0 true, .loadMore, .applyFilter { status := some "pending" }, .reply 0 true,
   .reply 0 true, .loadMore, .reply 0 true]

/-- Two filters, one right after the other; the reply to the first one comes last. -/
def overtaken : List (Input AdminUsersFilter) :=
  [.reply 0 true, .applyFilter { status := some "suspended" }, .applyFilter {}, .reply 1 true,
   .reply 0 true]

end Sample

/-- The failed `loadMore` leaves the first page of the filter, and the other list shows both
pages. -/
theorem admin_lists_right_suspended :
    (let users := Sample.byStatus AdminUsersFilter.status
      let s := after (AdminUsersController.step users) (start {}) Sample.suspendedOnce
      s.Right users ∧ s.value.map ListState.rows = some [0, 2] ∧
        EachStep (AdminUsersController.step users) (KeepsContent users {}) (start {})
          Sample.suspendedOnce) ∧
    let orders := Sample.byStatus AdminOrdersFilter.status
    let s := after (AdminOrdersController.step orders) (start {}) Sample.browsing
    s.Right orders ∧ s.value.map ListState.rows = some [0, 2, 4] := by
  obtain ⟨husers, horders⟩ := admin_lists_right (Sample.byStatus AdminUsersFilter.status)
    (Sample.byStatus AdminOrdersFilter.status) (Sample.byStatus_pagedCorrectly _)
    (Sample.byStatus_pagedCorrectly _)
  obtain ⟨hright, hkeeps⟩ := husers Sample.suspendedOnce (by decide +kernel)
  exact ⟨⟨hright, by decide +kernel, hkeeps⟩,
    (horders Sample.browsing (by decide +kernel)).1, by decide +kernel⟩

/-- The rows of the first filter are shown in the end. -/
theorem admin_lists_overtaken :
    ¬(after (AdminUsersController.step (Sample.byStatus AdminUsersFilter.status)) (start {})
      Sample.overtaken).Right (Sample.byStatus AdminUsersFilter.status) := by
  intro h
  obtain ⟨v, hv, -, k, hrows, -⟩ := h rfl rfl
  have hshown : (after (AdminUsersController.step (Sample.byStatus AdminUsersFilter.status))
      (start {}) Sample.overtaken).value.map ListState.rows = some [0, 2] := by decide +kernel
  rw [hv, Option.map_some, Option.some.injEq] at hshown
  rw [hshown] at hrows
  have hsecond := congrArg (·[1]?) hrows
  match k with
  | 0 => cases hsecond
  | 1 => cases hsecond
  | k + 2 => cases hsecond

end Marketplace
