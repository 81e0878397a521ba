import Mathlib.Data.List.Nodup
import Mathlib.Data.List.Perm.Basic

/-!
# The listing of the SCIM users

`scimClient.ts`: `listScimUsers` reads a directory page by page. A server chooses how many users it
puts on a page, up to the count it was asked for. The listing goes on behind the page it got, but it
takes a page with fewer users than it asked for to be the last one.
-/

namespace GhcpConsole.Sso

/-- What the listing reads of a user. -/
structure ScimUserResource where
  id : Option String
  userName : String
  deriving DecidableEq, Repr

structure ScimListResponse where
  totalResults : Option Int
  itemsPerPage : Option Int
  /-- `Resources ?? []` -/
  resources : List ScimUserResource
  deriving DecidableEq, Repr

/-- The response to one request. -/
inductive ScimAnswer where
  | ok (body : ScimListResponse)
  | failed (status : Nat) (text : String)
  deriving DecidableEq, Repr

def LIST_PAGE_SIZE : Nat := 100

/-- `user.id || user.userName` -/
def ScimUserResource.key (user : ScimUserResource) : String :=
  match user.id with
  | some id => if id = "" then user.userName else id
  | none => user.userName

def markUnseen (seen : List String) (user : ScimUserResource) : Bool × List String :=
  if user.key = "" || seen.contains user.key then (false, seen) else (true, user.key :: seen)

/-- `page.filter((user) => markUnseen(seen, user))`, with the keys seen behind it. -/
def newUsers : List String → List ScimUserResource → List ScimUserResource × List String
  | seen, [] => ([], seen)
  | seen, user :: page =>
      match markUnseen seen user with
      | (true, seen) => (user :: (newUsers seen page).1, (newUsers seen page).2)
      | (false, seen) => newUsers seen page

def isLastScimPage (body : ScimListResponse) (pageLength newCount total : Nat) : Bool :=
  if pageLength = 0 || newCount = 0 then true
  else if body.totalResults.any (· ≤ (total : Int)) then true
  else pageLength < LIST_PAGE_SIZE

/-- `body.itemsPerPage && body.itemsPerPage > 0 ? body.itemsPerPage : page.length` -/
def ScimListResponse.advance (body : ScimListResponse) : Nat :=
  match body.itemsPerPage with
  | some items => if 0 < items then items.toNat else body.resources.length
  | none => body.resources.length

section Listing

-- What the server answers, by the number of the request, its `startIndex` and its `count`.
variable (server : Nat → Nat → Nat → ScimAnswer)

def readScimUsersPage (request startIndex : Nat) : Except String ScimListResponse :=
  match server request startIndex LIST_PAGE_SIZE with
  | .ok body => .ok body
  | .failed status text => .error s!"SCIM list users failed: {status} {text}"

/-- The loop, for at most `fuel` more requests. -/
def listFrom : (fuel request startIndex : Nat) → List String → List ScimUserResource →
    Option (Except String (List ScimUserResource))
  | 0, _, _, _, _ => none
  | fuel + 1, request, startIndex, seen, users =>
      match readScimUsersPage server request startIndex with
      | .error message => some (.error message)
      | .ok body =>
          let (unseen, seen) := newUsers seen body.resources
          let users := users ++ unseen
          if isLastScimPage body body.resources.length unseen.length users.length then
            some (.ok users)
          else listFrom fuel (request + 1) (startIndex + body.advance) seen users

def listScimUsers (fuel : Nat) : Option (Except String (List ScimUserResource)) :=
  listFrom server fuel 0 1 [] []

end Listing

/-- A directory that stays as it is: every user has an id, and no two have the same. -/
structure ScimDirectory where
  users : List ScimUserResource
  hasId : ∀ user ∈ users, ∃ id, user.id = some id ∧ id ≠ ""
  distinct : (users.map (·.id)).Nodup

/-- A server of the directory: how many users it puts on the page of a request is its own choice,
within the count it was asked for. -/
structure ScimServer (directory : ScimDirectory) where
  size : Nat → Nat → Nat → Nat
  size_pos : ∀ request startIndex count, 0 < count → 0 < size request startIndex count
  size_le : ∀ request startIndex count, size request startIndex count ≤ count

namespace ScimServer

variable {directory : ScimDirectory} (server : ScimServer directory)

/-- The users of a page; there is none past the end of the directory. -/
def page (request startIndex count : Nat) : List ScimUserResource :=
  (directory.users.drop (startIndex - 1)).take (server.size request startIndex count)

def answer (request startIndex count : Nat) : ScimAnswer :=
  .ok {
    totalResults := some directory.users.length
    itemsPerPage := some (server.page request startIndex count).length
    resources := server.page request startIndex count }

/-- Every page up to the end of the directory holds as many users as were asked for, or all that
are left. -/
def FullPages : Prop :=
  ∀ request, LIST_PAGE_SIZE * request < directory.users.length →
    (server.page request (LIST_PAGE_SIZE * request + 1) LIST_PAGE_SIZE).length =
      min LIST_PAGE_SIZE (directory.users.length - LIST_PAGE_SIZE * request)

end ScimServer

/-! ## One page -/

theorem newUsers_of_unseen : ∀ (page : List ScimUserResource) (seen : List String),
    (∀ user ∈ page, user.key ≠ "" ∧ user.key ∉ seen) → (page.map (·.key)).Nodup →
      newUsers seen page = (page, (page.map (·.key)).reverse ++ seen)
  | [], _, _, _ => rfl
  | user :: page, seen, unseen, distinct => by
      obtain ⟨fresh, rest⟩ := List.forall_mem_cons.mp unseen
      obtain ⟨apart, distinct⟩ := List.nodup_cons.mp (List.map_cons ▸ distinct)
      have marked : markUnseen seen user = (true, user.key :: seen) := by
        simp [markUnseen, fresh.1, fresh.2]
      have later : ∀ other ∈ page, other.key ≠ "" ∧ other.key ∉ user.key :: seen := by
        intro other mem
        refine ⟨(rest other mem).1, ?_⟩
        rintro seenBefore
        rcases List.mem_cons.mp seenBefore with same | seenBefore
        · exact apart (same ▸ List.mem_map_of_mem mem)
        · exact (rest other mem).2 seenBefore
      simp [newUsers, marked, newUsers_of_unseen page _ later distinct]

namespace ScimDirectory

variable (directory : ScimDirectory)

theorem key_of_mem {user : ScimUserResource} (mem : user ∈ directory.users) :
    user.id = some user.key ∧ user.key ≠ "" := by
  obtain ⟨id, hasId, nonempty⟩ := directory.hasId user mem
  simp [ScimUserResource.key, hasId, nonempty]

theorem keys_nodup : (directory.users.map (·.key)).Nodup := by
  have ids : directory.users.map (·.id) = (directory.users.map (·.key)).map some := by
    rw [List.map_map]
    exact List.map_congr_left fun user mem => (directory.key_of_mem mem).1
  have distinct := directory.distinct
  rw [ids] at distinct
  exact distinct.of_map

/-- The users behind the first ones are all new. -/
theorem newUsers_drop (start size : Nat) :
    newUsers ((directory.users.take start).map (·.key)).reverse
        ((directory.users.drop start).take size) =
      ((directory.users.drop start).take size,
        ((directory.users.take (start + size)).map (·.key)).reverse) := by
  have split : ((directory.users.take start).map (·.key) ++
      ((directory.users.drop start).take size).map (·.key)).Nodup := by
    rw [← List.map_append, ← List.take_add]
    exact (directory.keys_nodup).sublist ((List.take_sublist _ _).map _)
  obtain ⟨_, pageDistinct, apart⟩ := List.nodup_append.mp split
  rw [newUsers_of_unseen _ _ _ pageDistinct]
  · rw [List.take_add, List.map_append, List.reverse_append]
  · intro user mem
    have inDirectory := List.mem_of_mem_drop (List.mem_of_mem_take mem)
    refine ⟨(directory.key_of_mem inDirectory).2, fun seen => ?_⟩
    exact apart user.key (List.mem_reverse.mp seen) user.key (List.mem_map_of_mem mem) rfl

end ScimDirectory

/-! ## The loop -/

namespace ScimServer

variable {directory : ScimDirectory} (server : ScimServer directory)

theorem length_page (request start : Nat) :
    (server.page request (start + 1) LIST_PAGE_SIZE).length =
      min (server.size request (start + 1) LIST_PAGE_SIZE) (directory.users.length - start) := by
  simp [page]

/-- `FullPages` for the pages that are still to be read. -/
def FullFrom (request start : Nat) : Prop :=
  ∀ more, start + LIST_PAGE_SIZE * more < directory.users.length →
    (server.page (request + more) (start + LIST_PAGE_SIZE * more + 1) LIST_PAGE_SIZE).length =
      min LIST_PAGE_SIZE (directory.users.length - (start + LIST_PAGE_SIZE * more))

theorem fullFrom_of_end {request start : Nat} (ended : directory.users.length ≤ start) :
    server.FullFrom request start := fun _ within => absurd within (by omega)

theorem fullFrom_next (request start : Nat) (left : start < directory.users.length) :
    server.FullFrom request start ↔
      (server.page request (start + 1) LIST_PAGE_SIZE).length =
          min LIST_PAGE_SIZE (directory.users.length - start) ∧
        server.FullFrom (request + 1) (start + LIST_PAGE_SIZE) := by
  have index : ∀ more, start + LIST_PAGE_SIZE * (more + 1) =
      start + LIST_PAGE_SIZE + LIST_PAGE_SIZE * more := by
    intro more
    rw [Nat.mul_succ]
    omega
  have number : ∀ more, request + (more + 1) = request + 1 + more := by omega
  constructor
  · intro full
    refine ⟨full 0 left, fun more within => ?_⟩
    have shifted := full (more + 1) (by rw [index]; exact within)
    rw [index, number] at shifted
    exact shifted
  · rintro ⟨first, later⟩ more within
    cases more with
    | zero => exact first
    | succ more =>
        rw [index] at within
        rw [index, number]
        exact later more within

/-- What a request gives while the directory is read up to `start`. -/
theorem read_page (request start : Nat) :
    readScimUsersPage server.answer request (start + 1) = .ok {
      totalResults := some directory.users.length
      itemsPerPage := some (server.page request (start + 1) LIST_PAGE_SIZE).length
      resources := server.page request (start + 1) LIST_PAGE_SIZE } := rfl

theorem take_page (request start : Nat) :
    directory.users.take start ++ server.page request (start + 1) LIST_PAGE_SIZE =
      directory.users.take (start + (server.page request (start + 1) LIST_PAGE_SIZE).length) := by
  have upTo : directory.users.take
      (start + (server.page request (start + 1) LIST_PAGE_SIZE).length) =
      directory.users.take (start + server.size request (start + 1) LIST_PAGE_SIZE) := by
    rw [server.length_page, List.take_eq_take_iff]
    omega
  rw [upTo, List.take_add]
  rfl

theorem newUsers_page (request start : Nat) :
    newUsers ((directory.users.take start).map (·.key)).reverse
        (server.page request (start + 1) LIST_PAGE_SIZE) =
      (server.page request (start + 1) LIST_PAGE_SIZE,
        ((directory.users.take
          (start + (server.page request (start + 1) LIST_PAGE_SIZE).length)).map
            (·.key)).reverse) := by
  rw [← server.take_page]
  have fresh := directory.newUsers_drop start (server.size request (start + 1) LIST_PAGE_SIZE)
  rw [List.take_add] at fresh
  exact fresh

theorem advance_page (results : Option Int) (users : List ScimUserResource) :
    ScimListResponse.advance
      { totalResults := results, itemsPerPage := some users.length, resources := users } =
        users.length := by
  simp [ScimListResponse.advance]

/-- The listing stops where the directory ends, and at a page that is short. -/
theorem isLastScimPage_page (start : Nat) (users : List ScimUserResource) :
    isLastScimPage
        { totalResults := some directory.users.length
          itemsPerPage := some users.length
          resources := users }
        users.length users.length (directory.users.take (start + users.length)).length =
      decide (directory.users.length ≤ start + users.length ∨ users.length < LIST_PAGE_SIZE) := by
  by_cases empty : users.length = 0
  · simp [isLastScimPage, empty, LIST_PAGE_SIZE]
  · by_cases ended : directory.users.length ≤ start + users.length
    · simp [isLastScimPage, empty, ended]
    · simp only [isLastScimPage, empty, ended, List.length_take, Option.any_some, false_or]
      rw [if_neg (by simp), if_neg (by simp; omega)]

/-- One turn of the loop, with the directory read up to `start`. -/
theorem listFrom_turn (fuel request start : Nat) :
    listFrom server.answer (fuel + 1) request (start + 1)
        ((directory.users.take start).map (·.key)).reverse (directory.users.take start) =
      let stop := start + (server.page request (start + 1) LIST_PAGE_SIZE).length
      if directory.users.length ≤ stop ∨ stop < start + LIST_PAGE_SIZE then
        some (.ok (directory.users.take stop))
      else
        listFrom server.answer fuel (request + 1) (stop + 1)
          ((directory.users.take stop).map (·.key)).reverse (directory.users.take stop) := by
  have short : ∀ size, start + size < start + LIST_PAGE_SIZE ↔ size < LIST_PAGE_SIZE := by omega
  simp only [listFrom, server.read_page, server.newUsers_page, server.take_page, advance_page,
    isLastScimPage_page, decide_eq_true_eq, short]
  rw [show start + 1 + (server.page request (start + 1) LIST_PAGE_SIZE).length =
    start + (server.page request (start + 1) LIST_PAGE_SIZE).length + 1 by omega]

/-- From where the directory is read up to `start`, the listing ends, and it ends at the end of the
directory exactly when the pages that are left are full. -/
theorem listFrom_spec : ∀ (left request start : Nat), start ≤ directory.users.length →
    directory.users.length - start < left →
      ∃ stop, stop ≤ directory.users.length ∧
        (∀ fuel, directory.users.length - start < fuel →
          listFrom server.answer fuel request (start + 1)
              ((directory.users.take start).map (·.key)).reverse (directory.users.take start) =
            some (.ok (directory.users.take stop))) ∧
        (stop = directory.users.length ↔ server.FullFrom request start)
  | left + 1, request, start, within, enough => by
      have turn := fun fuel => server.listFrom_turn fuel request start
      have length := server.length_page request start
      have positive := server.size_pos request (start + 1) LIST_PAGE_SIZE (by decide)
      have bounded := server.size_le request (start + 1) LIST_PAGE_SIZE
      have next := server.fullFrom_next request start
      generalize (server.page request (start + 1) LIST_PAGE_SIZE).length = size at *
      by_cases ended : directory.users.length ≤ start + size
      · refine ⟨directory.users.length, Nat.le_refl _, ?_, fun _ => ?_, fun _ => rfl⟩
        · rintro (_ | fuel) _
          · omega
          rw [turn]
          simp only [ended, true_or, if_true]
          rw [List.take_of_length_le ended, List.take_length]
        · by_cases more : start < directory.users.length
          · exact (next more).mpr ⟨by omega, server.fullFrom_of_end (by omega)⟩
          · exact server.fullFrom_of_end (by omega)
      · have more : start < directory.users.length := by omega
        by_cases short : size < LIST_PAGE_SIZE
        · refine ⟨start + size, by omega, ?_, fun complete => absurd complete (by omega), ?_⟩
          · rintro (_ | fuel) _
            · omega
            rw [turn]
            simp only [Nat.add_lt_add_iff_left, short, or_true, if_true]
          · intro full
            have first := ((next more).mp full).1
            omega
        · have whole : size = LIST_PAGE_SIZE := by omega
          obtain ⟨stop, stopWithin, result, complete⟩ :=
            listFrom_spec left (request + 1) (start + size) (by omega) (by omega)
          refine ⟨stop, stopWithin, ?_, ?_⟩
          · rintro (_ | fuel) enough
            · omega
            rw [turn]
            simp only [Nat.add_lt_add_iff_left, ended, short, or_self, if_false]
            exact result fuel (by omega)
          · rw [complete, next more, whole]
            exact ⟨fun later => ⟨by omega, later⟩, fun full => full.2⟩

end ScimServer

/-- The listing ends within one request more than there are users. It returns every user once
exactly when every page is full. -/
theorem listScimUsers_complete_iff {directory : ScimDirectory} (server : ScimServer directory) :
    ∃ users, (∀ fuel, directory.users.length < fuel →
        listScimUsers server.answer fuel = some (.ok users)) ∧
      (users.Perm directory.users ↔ server.FullPages) := by
  have whole : server.FullFrom 0 0 ↔ server.FullPages := by
    simp only [ScimServer.FullFrom, ScimServer.FullPages, Nat.zero_add]
  obtain ⟨stop, within, result, complete⟩ := server.listFrom_spec (directory.users.length + 1) 0 0
    (Nat.zero_le _) (by omega)
  refine ⟨directory.users.take stop, fun fuel enough => ?_, ?_⟩
  · exact result fuel (by omega)
  · rw [← whole, ← complete]
    constructor
    · intro same
      have lengths := same.length_eq
      rw [List.length_take] at lengths
      omega
    · intro all
      rw [all, List.take_length]

/-- Two users of a directory. -/
def twoUsers : ScimDirectory where
  users := [{ id := some "1", userName := "mona" }, { id := some "2", userName := "hubot" }]
  hasId := by simp
  distinct := by decide

/-- A server that puts one user on a page. -/
def onePerPage : ScimServer twoUsers where
  size := fun _ _ count => min 1 count
  size_pos := fun _ _ _ positive => by omega
  size_le := fun _ _ _ => by omega

/-- The first page tells of two users, and the listing ends behind the one that is on it. -/
theorem listScimUsers_short_page :
    (∀ fuel, listScimUsers onePerPage.answer (fuel + 1) =
      some (.ok [{ id := some "1", userName := "mona" }])) ∧
    ¬ [{ id := some "1", userName := "mona" }].Perm twoUsers.users :=
  ⟨fun _ => rfl, by decide⟩

end GhcpConsole.Sso
