import Mathlib.Algebra.BigOperators.Group.List.Basic
import Mathlib.Algebra.GroupWithZero.Nat
import Mathlib.Data.List.Forall2
import Mathlib.Data.List.Induction
import Mathlib.Data.List.TakeWhile
import StagedLoad.Proofs.Json.Path
import StagedLoad.Proofs.Url.Domain
import StagedLoad.Target.Server

/-!
# The books of the server

What one request adds to each count depends on the request alone, so the counts after any requests
are sums over them.  The handler of uploads is the one that may have seen a file and count nothing,
since the body can break off behind it; what it has seen is the last file of the parts only when
the body has ended.

## Main definitions

* `UploadBody.parts`, `UploadBody.isWhole`, `UploadBody.file?` — a body as a list of parts, and the
  file that counts.
* `Target.Reaches` — which handler a request reaches, said without looking for it.
* `Target.HasPairs` — the names and values of a query, said without taking it apart.
* `Target.FailsEvery` — every how many calls one fails.
* `Target.KeepsBooks` — what the counts and the answers have to do with the requests.

## Main results

* `Upload.file_read` — what is seen of a body is the last file of its parts.
* `Target.counters_serve`, `Target.counters_serveAll` — a count is the sum of what the requests add
  to it.
* `Target.books_are_kept` — **the server keeps its books**, whatever it is asked and however
  uploads are read.
-/

namespace StagedLoad

/-! ### Uploads -/

namespace UploadBody

/-- The parts that are read of a body. -/
def parts : UploadBody → List FormPart
  | ended => []
  | broken _ => []
  | part p rest => p :: rest.parts

/-- A body that can be read to its end. -/
def isWhole : UploadBody → Bool
  | ended => true
  | broken _ => false
  | part _ rest => rest.isWhole

/-- The last of some parts that is a file. -/
def lastFile? (parts : List FormPart) : Option FormPart :=
  (parts.filter fun p => p.name = some "file").getLast?

/-- The file of a body: there is none if the body cannot be read to its end. -/
def file? (b : UploadBody) : Option FormPart := if b.isWhole then lastFile? b.parts else none

end UploadBody

open UploadBody (lastFile?)

/-- What is kept in mind of a file. -/
def UploadedFile.ofPart (p : FormPart) : UploadedFile := ⟨p.filename, p.data.length⟩

namespace Upload

variable {u : Upload} {b : UploadBody}

theorem file_see (u : Upload) (p : FormPart) :
    (u.see p).file = if p.name = some "file" then some (.ofPart p) else u.file := by
  unfold see
  split
  · rfl
  · split <;> rfl

/-- Of the files among some parts the last one is kept in mind. -/
theorem file_foldl_see (u : Upload) (parts : List FormPart) :
    (parts.foldl see u).file = ((lastFile? parts).map .ofPart).or u.file := by
  induction parts generalizing u with
  | nil => rfl
  | cons p parts ih =>
    rw [List.foldl_cons, ih, file_see, lastFile?, lastFile?]
    by_cases hp : p.name = some "file"
    · rw [if_pos hp, List.filter_cons_of_pos (by simpa using hp), List.getLast?_cons]
      cases (parts.filter fun p => p.name = some "file").getLast? <;> rfl
    · rw [if_neg hp, List.filter_cons_of_neg (by simpa using hp)]

/-- A body that can be read to its end shows all of its parts. -/
theorem read_of_isWhole (u : Upload) (hb : b.isWhole = true) :
    u.read b = .ok (b.parts.foldl see u) := by
  induction b generalizing u with
  | ended => rfl
  | broken => cases hb
  | part p rest ih => exact ih (u.see p) hb

/-- A body that breaks off shows nothing, whatever has been read of it before. -/
theorem read_of_not_isWhole (u : Upload) (hb : b.isWhole = false) :
    ∃ reason, u.read b = .error reason := by
  induction b generalizing u with
  | ended => cases hb
  | broken reason => exact ⟨reason, rfl⟩
  | part p rest ih => exact ih (u.see p) hb

/-- What is seen of a body is its file. -/
theorem file_read (b : UploadBody) :
    (read {} b).toOption.bind Upload.file = b.file?.map .ofPart := by
  cases hb : b.isWhole with
  | true =>
    rw [read_of_isWhole {} hb, UploadBody.file?, if_pos hb]
    exact (file_foldl_see {} b.parts).trans Option.or_none
  | false =>
    obtain ⟨reason, hread⟩ := read_of_not_isWhole {} hb
    rw [hread, UploadBody.file?, hb]
    rfl

end Upload

namespace Target

variable {reader : UploadReader} {r : TargetRequest} {h : Handler}

/-! ### Which handler is reached -/

/-- A request asks for a handler by its path and with one of its methods. -/
structure Asks (r : TargetRequest) (h : Handler) : Prop where
  /-- The path is that of the handler. -/
  path : r.path = h.path
  /-- The method is one of the handler's. -/
  method : r.method ∈ h.methods

instance (r : TargetRequest) (h : Handler) : Decidable (Asks r h) :=
  decidable_of_iff (r.path = h.path ∧ r.method ∈ h.methods)
    ⟨fun ⟨hpath, hmethod⟩ => ⟨hpath, hmethod⟩, fun ⟨hpath, hmethod⟩ => ⟨hpath, hmethod⟩⟩

/-- It reaches the handler that it asks for, unless it is an upload without a boundary. -/
structure Reaches (reader : UploadReader) (r : TargetRequest) (h : Handler) : Prop where
  /-- It asks for the handler. -/
  asks : Asks r h
  /-- The announcement of an upload names a boundary. -/
  boundary : h = .upload → (r.contentType.bind reader.boundary?).isSome = true

instance (reader : UploadReader) (r : TargetRequest) (h : Handler) :
    Decidable (Reaches reader r h) :=
  decidable_of_iff (Asks r h ∧ (h = .upload → (r.contentType.bind reader.boundary?).isSome = true))
    ⟨fun ⟨hasks, hboundary⟩ => ⟨hasks, hboundary⟩, fun ⟨hasks, hboundary⟩ => ⟨hasks, hboundary⟩⟩

theorem mem_handlers (h : Handler) : h ∈ handlers := by cases h <;> decide

instance (reader : UploadReader) (r : TargetRequest) : Decidable (∃ h, Reaches reader r h) :=
  decidable_of_iff (∃ h ∈ handlers, Reaches reader r h)
    ⟨fun ⟨h, _, hreaches⟩ => ⟨h, hreaches⟩, fun ⟨h, hreaches⟩ => ⟨h, mem_handlers h, hreaches⟩⟩

theorem path_injective {h h' : Handler} (heq : h.path = h'.path) : h = h' := by
  revert heq
  cases h <;> cases h' <;> decide

theorem route_eq_ok_iff : route r = .ok h ↔ Asks r h := by
  have hfind : handlers.find? (fun h => h.path == r.path) = some h ↔ r.path = h.path := by
    constructor
    · intro hfind
      have hpath := List.find?_some hfind
      exact (beq_iff_eq.mp hpath).symm
    · intro hpath
      rw [hpath]
      cases h <;> decide
  constructor
  · intro hroute
    unfold route at hroute
    split at hroute
    case h_1 => cases hroute
    case h_2 hfound =>
      split at hroute
      case isTrue hmethod =>
        obtain rfl := Except.ok.inj hroute
        exact ⟨hfind.mp hfound, List.contains_iff_mem.mp hmethod⟩
      case isFalse => cases hroute
  · rintro ⟨hpath, hmethod⟩
    rw [route, hfind.mpr hpath]
    exact if_pos (List.contains_iff_mem.mpr hmethod)

theorem Asks.unique {h' : Handler} (hasks : Asks r h) (hasks' : Asks r h') : h = h' :=
  path_injective (hasks.path.symm.trans hasks'.path)

theorem isSome_body?_iff (hasks : Asks r h) :
    (body? reader h r).isSome = true ↔ Reaches reader r h := by
  have hupload : (body? reader .upload r).isSome =
      (r.contentType.bind reader.boundary?).isSome := Option.isSome_map
  constructor
  · intro hbody
    refine ⟨hasks, ?_⟩
    rintro rfl
    exact hupload.symm.trans hbody
  · intro hreaches
    cases h with
    | upload => exact hupload.trans (hreaches.boundary rfl)
    | _ => rfl

/-! ### One request -/

/-- A request that reaches a handler is answered and counted by it, but for the body of the
answer. -/
theorem serve_of_reaches (c : TargetCounters) (hreaches : Reaches reader r h) :
    ∃ body, body? reader h r = some body ∧
      serve reader c r =
        (withoutBody r (handle c h r.query body).1, (handle c h r.query body).2) := by
  have hsome := (isSome_body?_iff hreaches.asks).mpr hreaches
  obtain ⟨body, hbody⟩ := Option.isSome_iff_exists.mp hsome
  refine ⟨body, hbody, ?_⟩
  rw [serve, route_eq_ok_iff.mpr hreaches.asks]
  dsimp only
  rw [hbody]

/-- One that reaches none changes nothing, and an upload among them is refused. -/
theorem serve_of_not_reaches (c : TargetCounters) (hnone : ¬ ∃ h, Reaches reader r h) :
    (serve reader c r).2 = c ∧ (Asks r .upload → (serve reader c r).1.status = 400) := by
  cases hroute : route r with
  | error status =>
    rw [serve, hroute]
    refine ⟨rfl, fun hasks => ?_⟩
    rw [route_eq_ok_iff.mpr hasks] at hroute
    cases hroute
  | ok h =>
    have hasks := route_eq_ok_iff.mp hroute
    have hbody : body? reader h r = none := by
      rw [← Option.not_isSome_iff_eq_none, isSome_body?_iff hasks]
      exact fun hreaches => hnone ⟨h, hreaches⟩
    rw [serve, hroute]
    dsimp only
    rw [hbody]
    exact ⟨rfl, fun _ => rfl⟩

@[simp] theorem status_withoutBody (r : TargetRequest) (a : TargetResponse) :
    (withoutBody r a).status = a.status := by
  unfold withoutBody
  split <;> rfl

/-- The file that an upload brings: there is none if it is not an upload, or not one that can be
read to its end. -/
def file? (reader : UploadReader) (r : TargetRequest) : Option FormPart :=
  if Asks r .upload then
    (r.contentType.bind reader.boundary?).bind fun boundary =>
      (reader.body boundary r.body).file?
  else none

theorem file?_of_body {b : UploadBody} (hasks : Asks r .upload)
    (hbody : body? reader .upload r = some b) : file? reader r = b.file? := by
  obtain ⟨boundary, hboundary, rfl⟩ := Option.map_eq_some_iff.mp hbody
  rw [file?, if_pos hasks, hboundary, Option.bind_some]

theorem file?_of_not_reaches (hnot : ¬ Reaches reader r .upload) : file? reader r = none := by
  unfold file?
  split
  case isTrue hasks =>
    have hboundary : r.contentType.bind reader.boundary? = none := by
      rw [← Option.not_isSome_iff_eq_none]
      exact fun hsome => hnot ⟨hasks, fun _ => hsome⟩
    rw [hboundary, Option.bind_none]
  case isFalse => rfl

/-- How many bytes the file has that an upload brings. -/
def fileSize (reader : UploadReader) (r : TargetRequest) : Nat :=
  (file? reader r).elim 0 fun p => p.data.length

/-- An upload whose body has a file is taken. -/
theorem takeUpload_of_file (c : TargetCounters) {b : UploadBody} {p : FormPart}
    (hfile : b.file? = some p) :
    (takeUpload c b).1.status = 200 ∧ (takeUpload c b).2 =
      { c with uploads := c.uploads + 1, uploadBytes := c.uploadBytes + p.data.length } := by
  have hseen := Upload.file_read b
  rw [hfile] at hseen
  cases hread : Upload.read {} b with
  | error reason =>
    rw [hread] at hseen
    cases hseen
  | ok u =>
    rw [hread] at hseen
    have hu : u.file = some (.ofPart p) := hseen
    rw [takeUpload, hread]
    dsimp only
    rw [hu]
    exact ⟨rfl, rfl⟩

/-- One whose body has none, or breaks off, is refused and changes nothing. -/
theorem takeUpload_of_no_file (c : TargetCounters) {b : UploadBody} (hfile : b.file? = none) :
    (takeUpload c b).1.status = 400 ∧ (takeUpload c b).2 = c := by
  have hseen := Upload.file_read b
  rw [hfile] at hseen
  cases hread : Upload.read {} b with
  | error reason =>
    rw [takeUpload, hread]
    exact ⟨rfl, rfl⟩
  | ok u =>
    rw [hread] at hseen
    have hu : u.file = none := hseen
    rw [takeUpload, hread]
    dsimp only
    rw [hu]
    exact ⟨rfl, rfl⟩

/-- What a request adds to the counts depends on the request alone. -/
theorem counters_serve (c : TargetCounters) (r : TargetRequest) :
    (serve reader c r).2 =
      { requests := c.requests + if ∃ h, Reaches reader r h then 1 else 0
        uploads := c.uploads + if (file? reader r).isSome then 1 else 0
        uploadBytes := c.uploadBytes + fileSize reader r
        flakyCalls := c.flakyCalls + if Reaches reader r .flaky then 1 else 0 } := by
  by_cases hany : ∃ h, Reaches reader r h
  · obtain ⟨h, hreaches⟩ := hany
    obtain ⟨body, hbody, hserve⟩ := serve_of_reaches c hreaches
    rw [hserve, if_pos ⟨h, hreaches⟩]
    have hother (k : Handler) (hk : h ≠ k) : ¬ Reaches reader r k :=
      fun hreaches' => hk (hreaches.asks.unique hreaches'.asks)
    cases h with
    | upload =>
      rw [fileSize, file?_of_body hreaches.asks hbody, if_neg (hother .flaky (by decide))]
      cases hfile : body.file? with
      | none => exact (takeUpload_of_no_file _ hfile).2
      | some p => exact (takeUpload_of_file _ hfile).2
    | flaky =>
      rw [fileSize, file?_of_not_reaches (hother .upload (by decide)), if_pos hreaches]
      rfl
    | health | metrics | slow =>
      rw [fileSize, file?_of_not_reaches (hother .upload (by decide)),
        if_neg (hother .flaky (by decide))]
      rfl
  · have hnone (h : Handler) : ¬ Reaches reader r h := fun hreaches => hany ⟨h, hreaches⟩
    rw [(serve_of_not_reaches c hany).1, if_neg hany, fileSize,
      file?_of_not_reaches (hnone .upload), if_neg (hnone .flaky)]
    rfl

/-- What an upload is answered is decided by whether it brings a file. -/
theorem status_serve_of_upload (c : TargetCounters) (hasks : Asks r .upload) :
    (serve reader c r).1.status = if (file? reader r).isSome then 200 else 400 := by
  by_cases hreaches : Reaches reader r .upload
  · obtain ⟨body, hbody, hserve⟩ := serve_of_reaches c hreaches
    rw [hserve, status_withoutBody, file?_of_body hasks hbody]
    cases hfile : body.file? with
    | none => exact (takeUpload_of_no_file _ hfile).1
    | some p => exact (takeUpload_of_file _ hfile).1
  · have hnone : ¬ ∃ h, Reaches reader r h := by
      rintro ⟨h, hreaches'⟩
      rw [hreaches'.asks.unique hasks] at hreaches'
      exact hreaches hreaches'
    rw [(serve_of_not_reaches c hnone).2 hasks, file?_of_not_reaches hreaches]
    rfl

/-- A call fails if its number is a multiple of the period that it names itself. -/
theorem status_serve_of_flaky (c : TargetCounters) (hreaches : Reaches reader r .flaky) :
    (serve reader c r).1.status = if flakyPeriod r.query ∣ c.flakyCalls then 500 else 200 := by
  obtain ⟨body, -, hserve⟩ := serve_of_reaches c hreaches
  rw [hserve, status_withoutBody]
  simp only [Nat.dvd_iff_mod_eq_zero]
  rfl

/-! ### Calls that fail -/

/-- A part of a query stands for a name, which has no equals sign, and for the value behind the
sign, if there is one. -/
inductive PartText : List Char → String × String → Prop
  /-- Without a sign there is an empty value. -/
  | bare {name : List Char} (hname : '=' ∉ name) : PartText name (queryText name, "")
  /-- The sign may stand in the value again. -/
  | valued {name value : List Char} (hname : '=' ∉ name) :
      PartText (name ++ '=' :: value) (queryText name, queryText value)

/-- A query has some pairs of names and values: those that the parts between its ampersands stand
for, but for empty parts. -/
def HasPairs (query : String) (pairs : List (String × String)) : Prop :=
  ∃ parts : List (List Char), parts ≠ [] ∧ (∀ part ∈ parts, '&' ∉ part) ∧
    query.toList = ['&'].intercalate parts ∧
    List.Forall₂ PartText (parts.filter (· ≠ [])) pairs

/-- A query gives a number under a name: the last value under the name is written for it. -/
def Gives (query name : String) (n : Nat) : Prop :=
  ∃ before value after, HasPairs query (before ++ (name, value) :: after) ∧
    (∀ p ∈ after, p.1 ≠ name) ∧ Json.IndexText value.toList n

/-- Every how many calls one fails: as the query says, or every twentieth if it gives no number
but zero. -/
inductive FailsEvery (query : String) : Nat → Prop
  /-- As the query says. -/
  | given {n : Nat} (hgives : Gives query "every" n) (hpos : 0 < n) : FailsEvery query n
  /-- It does not say. -/
  | otherwise (hzero : ∀ n, Gives query "every" n → n = 0) : FailsEvery query 20

theorem queryText_nil : queryText [] = "" := by decide +kernel

theorem partText_iff {part : List Char} {pair : String × String} :
    PartText part pair ↔
      (queryText (part.takeWhile (· != '=')), queryText ((part.dropWhile (· != '=')).drop 1)) =
        pair := by
  have hother {name : List Char} (hname : '=' ∉ name) : ∀ c ∈ name, (c != '=') = true :=
    fun c hc => bne_iff_ne.mpr fun heq => hname (heq ▸ hc)
  constructor
  · rintro (hname | hname)
    · rw [List.takeWhile_eq_self_iff.mpr (hother hname),
        List.dropWhile_eq_nil_iff.mpr (hother hname), List.drop_nil, queryText_nil]
    · rw [List.takeWhile_append_of_pos (hother hname), List.dropWhile_append_of_pos (hother hname)]
      simp
  · rintro rfl
    have hname : '=' ∉ part.takeWhile (· != '=') := by
      intro hmem
      simpa using List.mem_takeWhile_imp hmem
    have hparts : part.takeWhile (· != '=') ++ part.dropWhile (· != '=') = part :=
      List.takeWhile_append_dropWhile
    cases hrest : part.dropWhile (· != '=') with
    | nil =>
      rw [hrest, List.append_nil] at hparts
      rw [hparts] at hname ⊢
      exact queryText_nil.symm ▸ .bare hname
    | cons c value =>
      have hc : c = '=' := by
        have hhead := List.head?_dropWhile_not (· != '=') part
        simpa [hrest] using hhead
      rw [hrest, hc] at hparts
      have htext : PartText (part.takeWhile (· != '=') ++ '=' :: value) _ := .valued hname
      rwa [hparts] at htext

/-- The names and values that the server reads are those of the query. -/
theorem hasPairs_iff {query : String} {pairs : List (String × String)} :
    HasPairs query pairs ↔ queryPairs query = pairs := by
  have hmap (parts : List (List Char)) : List.Forall₂ PartText parts pairs ↔
      parts.map (fun part => (queryText (part.takeWhile (· != '=')),
        queryText ((part.dropWhile (· != '=')).drop 1))) = pairs := by
    rw [← List.forall₂_eq_eq_eq, List.forall₂_map_left_iff]
    exact ⟨fun h => h.imp fun _ _ => partText_iff.mp, fun h => h.imp fun _ _ => partText_iff.mpr⟩
  unfold HasPairs queryPairs
  constructor
  · rintro ⟨parts, hne, hparts, hquery, hpairs⟩
    rw [hquery, Host.splitAt_eq, List.splitOn_intercalate '&' hparts hne]
    exact (hmap _).mp hpairs
  · intro hpairs
    refine ⟨Host.splitAt '&' query.toList, ?_, fun _ => Host.notMem_of_mem_splitAt, ?_,
      (hmap _).mpr hpairs⟩
    · rw [Host.splitAt_eq]
      exact List.splitOn_ne_nil '&' _
    · rw [Host.splitAt_eq, List.intercalate_splitOn]

theorem queryNumber?_eq_some_iff {query name : String} {n : Nat} :
    queryNumber? query name = some n ↔ Gives query name n := by
  simp only [queryNumber?, Option.bind_eq_some_iff, Json.index?_eq_some_iff, Gives, hasPairs_iff,
    List.getLast?_filter, List.find?_eq_some_iff_append]
  constructor
  · rintro ⟨⟨key, value⟩, ⟨hkey, after, before, hpairs, hafter⟩, htext⟩
    obtain rfl := beq_iff_eq.mp hkey
    refine ⟨before.reverse, value, after.reverse, ?_, ?_, htext⟩
    · rw [← List.reverse_inj, hpairs]
      simp
    · intro p hp
      simpa using hafter p (List.mem_reverse.mp hp)
  · rintro ⟨before, value, after, hpairs, hafter, htext⟩
    refine ⟨(name, value), ⟨beq_self_eq_true name, after.reverse, before.reverse, ?_, ?_⟩, htext⟩
    · rw [hpairs]
      simp
    · intro p hp
      simpa using hafter p (List.mem_reverse.mp hp)

theorem failsEvery_iff {query : String} {n : Nat} :
    FailsEvery query n ↔ n = flakyPeriod query := by
  have hgives (n : Nat) : queryNumber? query "every" = some n ↔ Gives query "every" n :=
    queryNumber?_eq_some_iff
  unfold flakyPeriod
  constructor
  · rintro (⟨hnumber, hpos⟩ | hzero)
    · rw [(hgives n).mpr hnumber, Option.filter_some, if_pos (by simpa using hpos)]
      rfl
    · cases hnumber : queryNumber? query "every" with
      | none => rfl
      | some m =>
        rw [hzero m ((hgives m).mp hnumber)]
        rfl
  · rintro rfl
    cases hnumber : queryNumber? query "every" with
    | none =>
      refine .otherwise fun n hn => ?_
      rw [(hgives n).mpr hn] at hnumber
      cases hnumber
    | some m =>
      rcases Nat.eq_zero_or_pos m with rfl | hpos
      · refine .otherwise fun n hn => ?_
        rw [(hgives n).mpr hn] at hnumber
        exact Option.some.inj hnumber
      · rw [Option.filter_some, if_pos (by simpa using hpos)]
        exact .given ((hgives m).mp hnumber) hpos

/-! ### Many requests -/

/-- The last request is answered with the counts that the others leave. -/
theorem serveAll_concat (c : TargetCounters) (rs : List TargetRequest) (r : TargetRequest) :
    serveAll reader c (rs ++ [r]) =
      ((serveAll reader c rs).1 ++ [(serve reader (serveAll reader c rs).2 r).1],
        (serve reader (serveAll reader c rs).2 r).2) := by
  induction rs generalizing c with
  | nil => rfl
  | cons r' rs ih =>
    have hrest := ih (serve reader c r').2
    rw [List.cons_append, serveAll]
    dsimp only
    rw [hrest]
    rfl

/-- What some requests add up to. -/
def tally (reader : UploadReader) (rs : List TargetRequest) : TargetCounters where
  requests := rs.countP fun r => ∃ h, Reaches reader r h
  uploads := rs.countP fun r => (file? reader r).isSome
  uploadBytes := (rs.map (fileSize reader)).sum
  flakyCalls := rs.countP fun r => Reaches reader r .flaky

/-- The counts are what the requests add up to. -/
theorem counters_serveAll (rs : List TargetRequest) :
    (serveAll reader {} rs).2 = tally reader rs := by
  induction rs using List.reverseRecOn with
  | nil => rfl
  | append_singleton rs r ih =>
    rw [serveAll_concat, counters_serve, ih]
    simp [tally, List.countP_append, List.countP_singleton]

/-- The uploads among some requests that have been answered with 200. -/
def taken (rs : List TargetRequest) (answers : List TargetResponse) : List TargetRequest :=
  ((rs.zip answers).filter fun e => Asks e.1 .upload ∧ e.2.status = 200).map Prod.fst

/-- They are those that bring a file. -/
theorem taken_serveAll (c : TargetCounters) (rs : List TargetRequest) :
    taken rs (serveAll reader c rs).1 = rs.filter fun r => (file? reader r).isSome := by
  have hserve (c : TargetCounters) (r : TargetRequest) :
      (Asks r .upload ∧ (serve reader c r).1.status = 200) ↔ (file? reader r).isSome = true := by
    by_cases hasks : Asks r .upload
    · rw [status_serve_of_upload c hasks]
      cases (file? reader r).isSome <;> simp [hasks]
    · simp [hasks, file?]
  induction rs generalizing c with
  | nil => rfl
  | cons r rs ih =>
    have hrest := ih (serve reader c r).2
    unfold taken at hrest ⊢
    rw [serveAll]
    dsimp only
    rw [List.zip_cons_cons]
    simp only [List.filter_cons, decide_eq_true_eq, hserve, ← hrest]
    split <;> rfl

/-- Only those add bytes. -/
theorem sum_fileSize (rs : List TargetRequest) :
    ((rs.filter fun r => (file? reader r).isSome).map (fileSize reader)).sum =
      (rs.map (fileSize reader)).sum := by
  induction rs with
  | nil => rfl
  | cons r rs ih =>
    rw [List.map_cons, List.sum_cons, ← ih]
    cases hfile : file? reader r with
    | none =>
      rw [List.filter_cons_of_neg (by simp [hfile]), fileSize, hfile]
      exact (Nat.zero_add _).symm
    | some p => rw [List.filter_cons_of_pos (by simp [hfile]), List.map_cons, List.sum_cons]

/-! ### The books -/

/-- The counts and the answers after any requests. -/
structure KeepsBooks (reader : UploadReader)
    (run : List TargetRequest → List TargetResponse × TargetCounters) : Prop where
  /-- The requests are those that reach a handler. -/
  requests : ∀ rs, (run rs).2.requests = rs.countP fun r => ∃ h, Reaches reader r h
  /-- The uploads are those that are answered with 200. -/
  uploads : ∀ rs, (run rs).2.uploads = (taken rs (run rs).1).length
  /-- The bytes are those of their files. -/
  uploadBytes : ∀ rs, (run rs).2.uploadBytes = ((taken rs (run rs).1).map (fileSize reader)).sum
  /-- So there are at most as many uploads as requests. -/
  uploads_le : ∀ rs, (run rs).2.uploads ≤ (run rs).2.requests
  /-- An upload is taken if it brings a file, and otherwise refused, and then it does not count. -/
  upload : ∀ rs r, Asks r .upload → ∃ a, (run (rs ++ [r])).1 = (run rs).1 ++ [a] ∧
    (a.status = 200 ∧ (file? reader r).isSome = true ∨
      a.status = 400 ∧ file? reader r = none ∧
        (run (rs ++ [r])).2.uploads = (run rs).2.uploads ∧
        (run (rs ++ [r])).2.uploadBytes = (run rs).2.uploadBytes)
  /-- A call fails if its number, counted from zero, is a multiple of the period that it names. -/
  flaky : ∀ rs r, Reaches reader r .flaky → ∃ a period, (run (rs ++ [r])).1 = (run rs).1 ++ [a] ∧
    (∀ n, FailsEvery r.query n ↔ n = period) ∧
    a.status = if period ∣ rs.countP fun r => Reaches reader r .flaky then 500 else 200

/-- **The server keeps its books**, whatever it is asked and however uploads are read. -/
theorem books_are_kept (reader : UploadReader) : KeepsBooks reader (serveAll reader {}) where
  requests rs := by rw [counters_serveAll]; rfl
  uploads rs := by
    rw [counters_serveAll, taken_serveAll, ← List.countP_eq_length_filter]
    rfl
  uploadBytes rs := by
    rw [counters_serveAll, taken_serveAll, sum_fileSize]
    rfl
  uploads_le rs := by
    rw [counters_serveAll]
    refine List.countP_mono_left fun r _ hfile => decide_eq_true ⟨.upload, ?_⟩
    by_contra hnot
    rw [file?_of_not_reaches hnot] at hfile
    cases hfile
  upload rs r hasks := by
    refine ⟨_, congrArg Prod.fst (serveAll_concat {} rs r), ?_⟩
    rw [status_serve_of_upload _ hasks, serveAll_concat, counters_serve]
    cases hfile : file? reader r with
    | none => exact .inr ⟨rfl, rfl, rfl, by rw [fileSize, hfile]; rfl⟩
    | some p => exact .inl ⟨rfl, rfl⟩
  flaky rs r hreaches := by
    refine ⟨_, flakyPeriod r.query, congrArg Prod.fst (serveAll_concat {} rs r),
      fun n => failsEvery_iff, ?_⟩
    rw [status_serve_of_flaky _ hreaches, counters_serveAll]
    rfl

/-- A part that is a file. -/
def filePart (data : Bytes) : FormPart := ⟨some "file", none, none, data⟩

/-- Every body has a file of three bytes, and the body itself is another file behind it; an empty
body breaks off. -/
def fileReader : UploadReader where
  boundary? := some
  body _ bytes :=
    .part (filePart [1, 2, 3]) <|
      if bytes = [] then .broken "incomplete" else .part (filePart bytes) .ended

/-- An upload. -/
def uploadOf (body : Bytes) : TargetRequest := ⟨"POST", "/upload", "", some "x", body⟩

/-- A call that fails every other time. -/
def everyOther : TargetRequest := ⟨"GET", "/flaky", "every=2", none, []⟩

/-- Two uploads and two calls, and a request that reaches no handler. -/
def someRequests : List TargetRequest :=
  [uploadOf [], everyOther, uploadOf [7], everyOther, ⟨"GET", "/", "", none, []⟩]

/-- A body that breaks off behind a file counts as a request only; one that ends behind two files
counts with the second.  Another upload that breaks off changes no count of uploads, and the third
call fails. -/
theorem books_of_someRequests :
    (serveAll fileReader {} someRequests).2 = ⟨4, 1, 1, 2⟩ ∧
    (∃ a, (serveAll fileReader {} (someRequests ++ [uploadOf []])).1 =
        (serveAll fileReader {} someRequests).1 ++ [a] ∧ a.status = 400 ∧
      (serveAll fileReader {} (someRequests ++ [uploadOf []])).2.uploads = 1) ∧
    ∃ a, (serveAll fileReader {} (someRequests ++ [everyOther])).1 =
      (serveAll fileReader {} someRequests).1 ++ [a] ∧ a.status = 500 := by
  have hbooks := books_are_kept fileReader
  have hcounts : (serveAll fileReader {} someRequests).2 = ⟨4, 1, 1, 2⟩ := by decide +kernel
  refine ⟨hcounts, ?_, ?_⟩
  · obtain ⟨a, ha, ⟨-, hfile⟩ | ⟨hstatus, -, huploads, -⟩⟩ :=
      hbooks.upload someRequests (uploadOf []) (by decide)
    · exact absurd hfile (by decide)
    · exact ⟨a, ha, hstatus, by rw [huploads, hcounts]⟩
  · obtain ⟨a, period, ha, hperiod, hstatus⟩ := hbooks.flaky someRequests everyOther (by decide)
    have htwo : period = 2 := ((hperiod 2).mp (failsEvery_iff.mpr (by decide +kernel))).symm
    have hcalls : (someRequests.countP fun r => Reaches fileReader r .flaky) = 2 := by decide
    rw [htwo, hcalls] at hstatus
    exact ⟨a, ha, hstatus⟩

end Target

end StagedLoad
