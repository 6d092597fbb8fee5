import Mathlib.Data.String.Basic
import Mathlib.Logic.Function.Basic
import Skaldberg.Ingest.Wal

/-!
# The storage of the tables

With the S3 catalog the files of the tables are objects of a service: a file has a URL, an object a
bucket and a key. What is relied on of the service is stated as laws (`S3.Service`).
`S3.parseS3Path` takes a URL apart; `S3.Storage` has the operations the catalog uses, each of which
asks the service one thing (`S3.Outcome`), but for `S3.deletePrefix`, which lists and deletes page
by page: it comes to an end (`S3.isSome_deletePages`) and touches nothing else
(`S3.removed_deletePages`).
-/

namespace Skaldberg

namespace S3

/-! ### The service -/

/-- The objects of the service, by bucket and key. -/
abbrev Objects := String → SortedMap String Bytes

/-- What becomes of a request. -/
inductive Outcome where
  /-- It is served. -/
  | served
  /-- It fails, its effect having taken place or not. -/
  | failed (applied : Bool) (text : String)
  deriving DecidableEq

/-- What a request leaves, that leads from one state to another when it is served. -/
def Outcome.effect {α : Type} (before after : α) : Outcome → α
  | served => after
  | failed true _ => after
  | failed false _ => before

/-- The keys of a bucket with a prefix, in order, that come behind a key. -/
def Objects.listed (objs : Objects) (bucket pre : String) (behind : Option String) : List String :=
  (objs bucket).keys.filter fun k =>
    pre.toList.isPrefixOf k.toList && behind.all fun t => decide (t < k)

/-- A page of a listing. -/
structure Listing where
  /-- The keys of its objects. -/
  contents : List String
  /-- Whether the listing goes on. -/
  isTruncated : Option Bool
  /-- Where it does. -/
  nextContinuationToken : Option String

/-- The requests to the service, with what is relied on of them. -/
structure Service where
  /-- Put an object. -/
  put : Objects → String → String → Bytes → Objects
  /-- Delete an object, if there is one. -/
  delete : Objects → String → String → Objects
  /-- List the keys of a bucket with a prefix, from the first or from where a token says. How many
  there are on the page is up to the service, and varies with the last argument. -/
  list : Objects → String → String → Option String → ℕ → Listing
  /-- The key that a token goes on behind. -/
  lastKey : String → String
  /-- The part of an object between two offsets, which is what a `Range` header asks for; none if
  that is refused. -/
  range : ℕ → ℕ → Bytes → Option Bytes
  /-- What is put is there, and nothing else has changed. -/
  get?_put : ∀ objs bucket key b k body, (put objs bucket key body b).get? k =
    if b = bucket ∧ k = key then some body else (objs b).get? k
  /-- What is deleted is not there, and nothing else has changed. -/
  get?_delete : ∀ objs bucket key b k, (delete objs bucket key b).get? k =
    if b = bucket ∧ k = key then none else (objs b).get? k
  /-- The keys are listed in order, each page going on where the one before it ended. -/
  list_prefix : ∀ objs bucket pre token n, (list objs bucket pre token n).contents <+:
    objs.listed bucket pre (token.map lastKey)
  /-- A page that is not truncated has all that is left. -/
  list_all : ∀ objs bucket pre token n, (list objs bucket pre token n).isTruncated ≠ some true →
    (list objs bucket pre token n).contents = objs.listed bucket pre (token.map lastKey)
  /-- One that is has a key, and a token for the last of them. -/
  list_next : ∀ objs bucket pre token n, (list objs bucket pre token n).isTruncated = some true →
    ∃ t, (list objs bucket pre token n).nextContinuationToken = some t ∧
      (list objs bucket pre token n).contents.getLast? = some (lastKey t)
  /-- A range that begins in an object ends with it at the latest, and one behind it is refused. -/
  range_eq : ∀ first last body, first ≤ last → range first last body =
    if first < body.length then some ((body.drop first).take (last + 1 - first)) else none
  /-- A range that ends before it begins is ignored. -/
  range_ignored : ∀ first last body, last < first → range first last body = some body

/-! ### The storage -/

section Storage

variable (sv : Service)

/-- The kind of an error. -/
inductive ErrorKind where
  /-- The request makes no sense. -/
  | dataInvalid
  /-- Something went wrong. -/
  | unexpected
  deriving DecidableEq

/-- An error. -/
structure Error where
  /-- Its kind. -/
  kind : ErrorKind
  /-- What it says. -/
  message : String
  deriving DecidableEq

/-- `unexpected`. -/
def unexpected (context err : String) : Error := ⟨.unexpected, context ++ ": " ++ err⟩

/-- `strip_prefix`. -/
def stripPrefix (pre s : List Char) : Option (List Char) :=
  if pre.isPrefixOf s then some (s.drop pre.length) else none

/-- `split_once`: what is before the first occurrence of a character, and what is behind it. -/
def splitOnce (c : Char) : List Char → Option (List Char × List Char)
  | [] => none
  | a :: s => if a = c then some ([], s) else (splitOnce c s).map fun p => (a :: p.1, p.2)

/-- `parse_s3_path`: the bucket and the key of a URL. -/
def parseS3Path (path : String) : Except Error (String × String) :=
  match stripPrefix "s3://".toList path.toList with
  | none => .error ⟨.dataInvalid, "expected an s3:// URL, got " ++ path⟩
  | some stripped =>
    match splitOnce '/' stripped with
    | none => .error ⟨.dataInvalid, "s3 URL is missing a key: " ++ path⟩
    | some (bucket, key) => .ok (.ofList bucket, .ofList key)

/-- A file that is being written. -/
structure FileWrite where
  /-- The bucket of its object. -/
  bucket : String
  /-- The key of its object. -/
  key : String
  /-- What has been written, until it is closed. -/
  buffer : Option Bytes
  deriving DecidableEq

/-- `FileWrite::write`. -/
def FileWrite.write (w : FileWrite) (bs : Bytes) : Except Error Unit × FileWrite :=
  match w.buffer with
  | none => (.error ⟨.dataInvalid, "Cannot write to a closed file"⟩, w)
  | some buf => (.ok (), { w with buffer := some (buf ++ bs) })

/-- `FileWrite::close`: the file is closed first. -/
def FileWrite.close (w : FileWrite) (o : Outcome) (objs : Objects) :
    Except Error Unit × FileWrite × Objects :=
  match w.buffer with
  | none => (.error ⟨.dataInvalid, "File already closed"⟩, w, objs)
  | some buf =>
    match o with
    | .served => (.ok (), { w with buffer := none }, sv.put objs w.bucket w.key buf)
    | .failed _ text =>
      (.error (unexpected "put_object on close" text), { w with buffer := none },
        o.effect objs (sv.put objs w.bucket w.key buf))

/-- `FileRead::read`: the bytes of a range, its end left out. Reading the body of the answer may
fail. -/
def readRange (notFound invalidRange : String) (objs : Objects) (bucket key : String)
    (start stop : ℕ) (o : Outcome) (body : Option String) : Except Error Bytes :=
  let context := "get_object range " ++ toString start ++ "-" ++ toString stop
  match o with
  | .failed _ text => .error (unexpected context text)
  | .served =>
    match (objs bucket).get? key with
    | none => .error (unexpected context notFound)
    | some contents =>
      match sv.range start (stop - 1) contents with
      | none => .error (unexpected context invalidRange)
      | some bs =>
        match body with
        | some text => .error (unexpected "read body" text)
        | none => .ok bs

/-- What the service does with one page of a listing. -/
structure Page where
  /-- What it makes the size of the page from. -/
  choice : ℕ
  /-- What becomes of the listing. -/
  list : Outcome
  /-- What becomes of the deletion of each key. -/
  delete : ℕ → Outcome

/-- Delete the keys of a page, of which the first is the `i`-th. -/
def deleteKeys (bucket : String) (outcome : ℕ → Outcome) :
    ℕ → List String → Objects → Except Error Unit × Objects
  | _, [], objs => (.ok (), objs)
  | i, k :: ks, objs =>
    match outcome i with
    | .served => deleteKeys bucket outcome (i + 1) ks (sv.delete objs bucket k)
    | .failed applied text =>
      (.error (unexpected ("delete_object " ++ k) text),
        Outcome.effect objs (sv.delete objs bucket k) (.failed applied text))

/-- The loop of `delete_prefix` over the pages, as far as the service goes on. -/
def deletePages (path bucket pre : String) :
    List Page → Option String → Objects → Option (Except Error Unit × Objects)
  | [], _, _ => none
  | page :: pages, token, objs =>
    match page.list with
    | .failed _ text => some (.error (unexpected ("list_objects_v2 " ++ path) text), objs)
    | .served =>
      let resp := sv.list objs bucket pre token page.choice
      match deleteKeys sv bucket page.delete 0 resp.contents objs with
      | (.error e, objs) => some (.error e, objs)
      | (.ok _, objs) =>
        if resp.isTruncated.getD false then
          match resp.nextContinuationToken with
          | some t => deletePages path bucket pre pages (some t) objs
          | none => some (.ok (), objs)
        else some (.ok (), objs)

/-- `delete_prefix`. -/
def deletePrefix (path : String) (pages : List Page) (objs : Objects) :
    Option (Except Error Unit × Objects) :=
  match parseS3Path path with
  | .error e => some (.error e, objs)
  | .ok (bucket, pre) => deletePages sv path bucket pre pages none objs

/-- The storage, with the files that have been opened for writing. -/
structure Storage where
  /-- The objects of the service. -/
  objs : Objects
  /-- The writers. -/
  writers : List FileWrite

/-- What is asked of the storage. -/
inductive Op where
  /-- Whether there is a file. -/
  | exists (path : String) (o : Outcome)
  /-- How large a file is. -/
  | metadata (path : String) (o : Outcome)
  /-- The bytes of a file; reading the body of the answer may fail. -/
  | read (path : String) (o : Outcome) (body : Option String)
  /-- Some bytes of a file; reading the body of the answer may fail. -/
  | readRange (path : String) (start stop : ℕ) (o : Outcome) (body : Option String)
  /-- Write a file. -/
  | write (path : String) (bs : Bytes) (o : Outcome)
  /-- Delete a file. -/
  | delete (path : String) (o : Outcome)
  /-- Delete the files under a prefix. -/
  | deletePrefix (path : String) (pages : List Page)
  /-- Open a file for writing. -/
  | writer (path : String)
  /-- Write to an open file. -/
  | append (id : ℕ) (bs : Bytes)
  /-- Close a file. -/
  | close (id : ℕ) (o : Outcome)

/-- An answer that is no error. -/
inductive Answer where
  /-- It is done. -/
  | done
  /-- Whether there is a file. -/
  | bool (b : Bool)
  /-- A size. -/
  | size (n : ℕ)
  /-- Some bytes. -/
  | bytes (bs : Bytes)
  deriving DecidableEq

/-- A request for an object, with what the service says if there is none. -/
def getObject (notFound context : String) (objs : Objects) (bucket key : String) :
    Outcome → Except Error Bytes
  | .failed _ text => .error (unexpected context text)
  | .served =>
    match (objs bucket).get? key with
    | none => .error (unexpected context notFound)
    | some body => .ok body

/-- A request that changes the objects. -/
def change (context : String) (before after : Objects) (o : Outcome) :
    Except Error Answer × Objects :=
  match o with
  | .served => (.ok .done, after)
  | .failed _ text => (.error (unexpected context text), o.effect before after)

/-- Answer a request, if it can be made. -/
def step (notFound invalidRange : String) (s : Storage) :
    Op → Option (Except Error Answer × Storage)
  | .exists path o =>
    match parseS3Path path with
    | .error e => some (.error e, s)
    | .ok (bucket, key) =>
      match o with
      | .served => some (.ok (.bool ((s.objs bucket).get? key).isSome), s)
      | .failed _ text => some (.error (unexpected ("head_object " ++ path) text), s)
  | .metadata path o =>
    match parseS3Path path with
    | .error e => some (.error e, s)
    | .ok (bucket, key) =>
      some ((getObject notFound ("head_object " ++ path) s.objs bucket key o).map fun body =>
        .size body.length, s)
  | .read path o body =>
    match parseS3Path path with
    | .error e => some (.error e, s)
    | .ok (bucket, key) =>
      match getObject notFound ("get_object " ++ path) s.objs bucket key o with
      | .error e => some (.error e, s)
      | .ok bs =>
        match body with
        | some text => some (.error (unexpected ("read body " ++ path) text), s)
        | none => some (.ok (.bytes bs), s)
  | .readRange path start stop o body =>
    match parseS3Path path with
    | .error e => some (.error e, s)
    | .ok (bucket, key) =>
      some ((readRange sv notFound invalidRange s.objs bucket key start stop o body).map .bytes, s)
  | .write path bs o =>
    match parseS3Path path with
    | .error e => some (.error e, s)
    | .ok (bucket, key) =>
      match change ("put_object " ++ path) s.objs (sv.put s.objs bucket key bs) o with
      | (res, objs) => some (res, { s with objs := objs })
  | .delete path o =>
    match parseS3Path path with
    | .error e => some (.error e, s)
    | .ok (bucket, key) =>
      match change ("delete_object " ++ path) s.objs (sv.delete s.objs bucket key) o with
      | (res, objs) => some (res, { s with objs := objs })
  | .deletePrefix path pages =>
    (deletePrefix sv path pages s.objs).map fun r =>
      (r.1.map fun _ => .done, { s with objs := r.2 })
  | .writer path =>
    match parseS3Path path with
    | .error e => some (.error e, s)
    | .ok (bucket, key) =>
      some (.ok .done, { s with writers := s.writers ++ [⟨bucket, key, some []⟩] })
  | .append id bs =>
    s.writers[id]?.map fun w =>
      match w.write bs with
      | (res, w) => (res.map fun _ => .done, { s with writers := s.writers.set id w })
  | .close id o =>
    s.writers[id]?.map fun w =>
      match w.close sv o s.objs with
      | (res, w, objs) =>
        (res.map fun _ => .done, { s with writers := s.writers.set id w, objs := objs })

end Storage

/-! ### URLs -/

/-- The URL of an object. -/
def url (bucket key : String) : String := "s3://" ++ bucket ++ "/" ++ key

theorem toList_url (bucket key : String) :
    (url bucket key).toList = "s3://".toList ++ (bucket.toList ++ '/' :: key.toList) := by
  rw [url, String.toList_append, String.toList_append, String.toList_append, List.append_assoc,
    List.append_assoc]
  rfl

theorem stripPrefix_eq_some_iff {pre s t : List Char} :
    stripPrefix pre s = some t ↔ s = pre ++ t := by
  rw [stripPrefix]
  split_ifs with h
  · obtain ⟨r, rfl⟩ := List.isPrefixOf_iff_prefix.mp h
    simp
  · constructor
    · exact nofun
    · rintro rfl
      exact absurd (List.isPrefixOf_iff_prefix.mpr (List.prefix_append pre t)) h

theorem splitOnce_eq_some_iff {c : Char} {s x y : List Char} :
    splitOnce c s = some (x, y) ↔ c ∉ x ∧ s = x ++ c :: y := by
  induction s generalizing x with
  | nil => simp [splitOnce]
  | cons a s ih =>
    rw [splitOnce]
    split_ifs with ha
    · subst ha
      cases x with
      | nil => simp
      | cons b x => simp +contextual [eq_comm]
    · cases x with
      | nil => simp [ha, Option.map_eq_some_iff]
      | cons b x =>
        simp only [Option.map_eq_some_iff, Prod.mk.injEq, List.cons.injEq, Prod.exists]
        constructor
        · rintro ⟨x', y', hs, ⟨rfl, rfl⟩, rfl⟩
          obtain ⟨hc, hs⟩ := ih.mp hs
          refine ⟨fun hmem => ?_, congrArg _ hs⟩
          exact (List.mem_cons.mp hmem).elim (Ne.symm ha) hc
        · rintro ⟨hc, rfl, rfl⟩
          exact ⟨x, y, ih.mpr ⟨fun h => hc (List.mem_cons_of_mem _ h), rfl⟩, ⟨rfl, rfl⟩, rfl⟩

/-- **A URL stands for one object**, whose bucket has no slash in it. -/
theorem parseS3Path_eq_ok_iff {path bucket key : String} :
    parseS3Path path = .ok (bucket, key) ↔ '/' ∉ bucket.toList ∧ path = url bucket key := by
  rw [← String.toList_inj, toList_url, parseS3Path]
  rcases hstrip : stripPrefix "s3://".toList path.toList with _ | stripped
  · simp only [reduceCtorEq, false_iff, not_and]
    intro _ hpath
    rw [stripPrefix_eq_some_iff.mpr hpath] at hstrip
    cases hstrip
  · have hpath := stripPrefix_eq_some_iff.mp hstrip
    rw [hpath, List.append_cancel_left_eq, ← splitOnce_eq_some_iff]
    rcases hsplit : splitOnce '/' stripped with _ | ⟨x, y⟩
    · simp [hsplit]
    · simp only [hsplit, Except.ok.injEq, Prod.mk.injEq, Option.some.injEq]
      constructor
      · rintro ⟨rfl, rfl⟩
        simp
      · rintro ⟨rfl, rfl⟩
        simp

theorem parseS3Path_url {bucket : String} (h : '/' ∉ bucket.toList) (key : String) :
    parseS3Path (url bucket key) = .ok (bucket, key) := parseS3Path_eq_ok_iff.mpr ⟨h, rfl⟩

/-- What is behind a prefix up to the first slash is compared piece by piece. -/
theorem prefix_slash_iff {b b' x y : List Char} (hb : '/' ∉ b) (hb' : '/' ∉ b') :
    b ++ '/' :: x <+: b' ++ '/' :: y ↔ b = b' ∧ x <+: y := by
  induction b generalizing b' with
  | nil =>
    cases b' with
    | nil => simp
    | cons c b' => simp_all [eq_comm]
  | cons c b ih =>
    cases b' with
    | nil => simp_all [eq_comm]
    | cons c' b' =>
      rw [List.cons_append, List.cons_append, List.cons_prefix_cons,
        ih (fun h => hb (List.mem_cons_of_mem _ h)) fun h => hb' (List.mem_cons_of_mem _ h)]
      simp [and_assoc]

/-- **The URLs that a URL begins** are those of the objects of its bucket that its key begins. -/
theorem prefix_url_iff {bucket bucket' pre key : String} (hb : '/' ∉ bucket.toList)
    (hb' : '/' ∉ bucket'.toList) :
    (url bucket pre).toList <+: (url bucket' key).toList ↔
      bucket = bucket' ∧ pre.toList <+: key.toList := by
  rw [toList_url, toList_url, List.prefix_append_right_inj, prefix_slash_iff hb hb',
    String.toList_inj]

/-! ### Objects that are deleted -/

/-- Of some keys of a bucket the objects are gone, and nothing else has changed. -/
structure Removed (objs objs' : Objects) (bucket : String) (keys : Set String) : Prop where
  /-- The objects of the keys are gone. -/
  gone : ∀ k ∈ keys, (objs' bucket).get? k = none
  /-- The others are there. -/
  kept : ∀ b k, ¬(b = bucket ∧ k ∈ keys) → (objs' b).get? k = (objs b).get? k

variable {sv : Service} {objs objs' objs'' : Objects} {bucket pre path : String}
  {keys keys' : Set String} {token behind : Option String}

theorem Removed.refl (objs : Objects) (bucket : String) : Removed objs objs bucket ∅ :=
  ⟨nofun, fun _ _ _ => rfl⟩

/-- What is not there is not there any later. -/
theorem Removed.get?_eq_none (h : Removed objs objs' bucket keys) {b k : String}
    (hk : (objs b).get? k = none) : (objs' b).get? k = none := by
  by_cases hgone : b = bucket ∧ k ∈ keys
  · rw [hgone.1]
    exact h.gone k hgone.2
  · rw [h.kept b k hgone, hk]

theorem Removed.trans (h : Removed objs objs' bucket keys)
    (h' : Removed objs' objs'' bucket keys') : Removed objs objs'' bucket (keys ∪ keys') := by
  refine ⟨fun k hk => ?_, fun b k hk => ?_⟩
  · rcases hk with hk | hk
    · exact h'.get?_eq_none (h.gone k hk)
    · exact h'.gone k hk
  · rw [h'.kept b k fun hb => hk ⟨hb.1, Or.inr hb.2⟩, h.kept b k fun hb => hk ⟨hb.1, Or.inl hb.2⟩]

theorem removed_delete (sv : Service) (objs : Objects) (bucket key : String) :
    Removed objs (sv.delete objs bucket key) bucket {key} := by
  refine ⟨fun k hk => ?_, fun b k hk => ?_⟩
  · rw [sv.get?_delete, if_pos ⟨rfl, hk⟩]
  · rw [sv.get?_delete]
    exact if_neg hk

/-- **What the deletion of a page leaves**: some of its keys are gone, and all of them if it
succeeds. -/
theorem removed_deleteKeys (sv : Service) (bucket : String) (outcome : ℕ → Outcome) (i : ℕ)
    (ks : List String) (objs : Objects) :
    ∃ keys ⊆ {k | k ∈ ks}, Removed objs (deleteKeys sv bucket outcome i ks objs).2 bucket keys ∧
      ((deleteKeys sv bucket outcome i ks objs).1 = .ok () → keys = {k | k ∈ ks}) := by
  induction ks generalizing i objs with
  | nil => exact ⟨∅, Set.empty_subset _, Removed.refl objs bucket, fun _ => by simp⟩
  | cons k ks ih =>
    rw [deleteKeys]
    rcases outcome i with _ | ⟨applied, text⟩
    · obtain ⟨keys, hsub, hremoved, hall⟩ := ih (i + 1) (sv.delete objs bucket k)
      refine ⟨{k} ∪ keys, ?_, (removed_delete sv objs bucket k).trans hremoved, fun hok => ?_⟩
      · rintro k' (rfl | hk')
        · exact List.mem_cons_self ..
        · exact List.mem_cons_of_mem _ (hsub hk')
      · rw [hall hok]
        ext k'
        simp
    · cases applied
      · exact ⟨∅, Set.empty_subset _, Removed.refl objs bucket, nofun⟩
      · refine ⟨{k}, ?_, removed_delete sv objs bucket k, nofun⟩
        rintro k' rfl
        exact List.mem_cons_self ..

/-- The keys that are listed. -/
theorem mem_listed {k : String} :
    k ∈ objs.listed bucket pre behind ↔ (∃ v, (objs bucket).get? k = some v) ∧
      pre.toList <+: k.toList ∧ ∀ t ∈ behind, t < k := by
  rw [Objects.listed, List.mem_filter, Bool.and_eq_true, List.isPrefixOf_iff_prefix,
    ← SortedMap.contains_iff_mem_keys, SortedMap.contains, Option.isSome_iff_exists]
  refine and_congr_right fun _ => and_congr_right fun _ => ?_
  cases behind <;> simp

theorem pairwise_listed (objs : Objects) (bucket pre : String) (behind : Option String) :
    (objs.listed bucket pre behind).Pairwise (· < ·) := (objs bucket).keys_pairwise.filter _

/-- Of what is listed, what is not behind the last key of a page is on the page. -/
theorem mem_of_prefix_of_le {l ks : List String} (hl : l.Pairwise (· < ·)) (hks : ks <+: l)
    {t k : String} (ht : ks.getLast? = some t) (hk : k ∈ l) (hle : k ≤ t) : k ∈ ks := by
  obtain ⟨rest, rfl⟩ := hks
  refine (List.mem_append.mp hk).resolve_right fun hrest => ?_
  have hlt := (List.pairwise_append.mp hl).2.2 t (List.mem_of_getLast? ht) k hrest
  exact absurd hle (not_le.mpr hlt)

theorem getD_false_iff {b : Option Bool} : b.getD false = true ↔ b = some true := by
  cases b <;> simp

theorem prefix_of_mem_listed {k : String} (hk : k ∈ objs.listed bucket pre behind) :
    pre.toList <+: k.toList := (mem_listed.mp hk).2.1

/-- What is not listed is not there. -/
theorem get?_eq_none_of_notMem_listed {k : String} (hpre : pre.toList <+: k.toList)
    (hbehind : ∀ t ∈ behind, t < k) (hk : k ∉ objs.listed bucket pre behind) :
    (objs bucket).get? k = none := by
  by_contra hne
  exact hk (mem_listed.mpr ⟨Option.ne_none_iff_exists'.mp hne, hpre, hbehind⟩)

/-- **What the loop leaves**: some of the objects under the prefix are gone, and nothing else has
changed; if it ends well, none of those behind the token is left. -/
theorem removed_deletePages {res : Except Error Unit} {pages : List Page}
    (h : deletePages sv path bucket pre pages token objs = some (res, objs')) :
    ∃ keys ⊆ {k : String | pre.toList <+: k.toList}, Removed objs objs' bucket keys ∧
      (res = .ok () → ∀ k, pre.toList <+: k.toList → (∀ t ∈ token.map sv.lastKey, t < k) →
        (objs' bucket).get? k = none) := by
  induction pages generalizing token objs with
  | nil => cases h
  | cons page pages ih =>
    rw [deletePages] at h
    rcases hlist : page.list with _ | ⟨applied, text⟩
    · rw [hlist] at h
      simp only at h
      let listed := objs.listed bucket pre (token.map sv.lastKey)
      have hfound : (sv.list objs bucket pre token page.choice).contents <+: listed :=
        sv.list_prefix objs bucket pre token page.choice
      have hall := sv.list_all objs bucket pre token page.choice
      have hnext := sv.list_next objs bucket pre token page.choice
      generalize sv.list objs bucket pre token page.choice = resp at h hfound hall hnext
      obtain ⟨keys, hsub, hremoved, hdeleted⟩ :=
        removed_deleteKeys sv bucket page.delete 0 resp.contents objs
      have hsub : keys ⊆ {k : String | pre.toList <+: k.toList} :=
        fun k hk => prefix_of_mem_listed (hfound.subset (hsub hk))
      rcases hdel : deleteKeys sv bucket page.delete 0 resp.contents objs with
        ⟨e | ⟨⟨⟩⟩, objs₁⟩
      · rw [hdel] at h hremoved
        cases h
        exact ⟨keys, hsub, hremoved, nofun⟩
      · rw [hdel] at h hremoved hdeleted
        have hkeys : keys = {k | k ∈ resp.contents} := hdeleted rfl
        simp only at h
        split_ifs at h with hmore
        · obtain ⟨t, ht, hlast⟩ := hnext (getD_false_iff.mp hmore)
          rw [ht] at h
          obtain ⟨keys', hsub', hremoved', hrest⟩ := ih h
          refine ⟨keys ∪ keys', Set.union_subset hsub hsub', hremoved.trans hremoved',
            fun hok k hk htoken => ?_⟩
          by_cases hkl : k ∈ listed
          · -- it is on this page or behind it
            rcases le_or_gt k (sv.lastKey t) with hle | hlt
            · refine hremoved'.get?_eq_none (hremoved.gone k ?_)
              rw [hkeys]
              exact mem_of_prefix_of_le (pairwise_listed objs bucket pre _) hfound hlast hkl hle
            · exact hrest hok k hk fun t' ht' => by cases ht'; exact hlt
          · exact (hremoved.trans hremoved').get?_eq_none
              (get?_eq_none_of_notMem_listed hk htoken hkl)
        · -- all that is listed is on the page
          cases h
          have hcontents : resp.contents = listed :=
            hall fun htrue => hmore (getD_false_iff.mpr htrue)
          refine ⟨keys, hsub, hremoved, fun _ k hk htoken => ?_⟩
          by_cases hkl : k ∈ listed
          · exact hremoved.gone k (by rw [hkeys, hcontents]; exact hkl)
          · exact hremoved.get?_eq_none (get?_eq_none_of_notMem_listed hk htoken hkl)
    · rw [hlist] at h
      cases h
      exact ⟨∅, Set.empty_subset _, Removed.refl _ bucket, nofun⟩

/-- What is listed behind the last key of a page is less than what was listed. -/
theorem length_listed_lt {t : String} (hremoved : Removed objs objs' bucket keys)
    (ht : t ∈ objs.listed bucket pre behind) :
    (objs'.listed bucket pre (some t)).length < (objs.listed bucket pre behind).length := by
  have hsub : objs'.listed bucket pre (some t) ⊆
      (objs.listed bucket pre behind).filter fun k => decide (t < k) := by
    intro k hk
    obtain ⟨⟨v, hv⟩, hpre, hlt⟩ := mem_listed.mp hk
    have hlt : t < k := hlt t rfl
    have hkept : (objs bucket).get? k = some v := by
      -- what is there now was there before
      by_cases hgone : bucket = bucket ∧ k ∈ keys
      · rw [hremoved.gone k hgone.2] at hv
        cases hv
      · rw [← hremoved.kept bucket k hgone, hv]
    refine List.mem_filter.mpr ⟨mem_listed.mpr ⟨⟨v, hkept⟩, hpre, fun t' ht' => ?_⟩,
      decide_eq_true hlt⟩
    exact ((mem_listed.mp ht).2.2 t' ht').trans hlt
  have hnodup : (objs'.listed bucket pre (some t)).Nodup :=
    (pairwise_listed objs' bucket pre (some t)).imp fun h => h.ne
  refine (List.subperm_of_subset hnodup hsub).length_le.trans_lt ?_
  exact List.length_filter_lt_length_iff_exists.mpr ⟨t, ht, by simp⟩

/-- **The loop ends** with no more pages than there are objects to delete, and one. -/
theorem isSome_deletePages {pages : List Page}
    (h : (objs.listed bucket pre (token.map sv.lastKey)).length < pages.length) :
    (deletePages sv path bucket pre pages token objs).isSome = true := by
  induction pages generalizing token objs with
  | nil => cases h
  | cons page pages ih =>
    rw [deletePages]
    rcases page.list with _ | ⟨applied, text⟩
    · have hfound := sv.list_prefix objs bucket pre token page.choice
      have hnext := sv.list_next objs bucket pre token page.choice
      generalize sv.list objs bucket pre token page.choice = resp at hfound hnext
      obtain ⟨keys, -, hremoved, -⟩ :=
        removed_deleteKeys sv bucket page.delete 0 resp.contents objs
      simp only
      rcases hdel : deleteKeys sv bucket page.delete 0 resp.contents objs with ⟨e | u, objs₁⟩
      · rfl
      · simp only
        split_ifs with hmore
        · obtain ⟨t, ht, hlast⟩ := hnext (getD_false_iff.mp hmore)
          rw [hdel] at hremoved
          rw [ht]
          refine ih ((length_listed_lt hremoved ?_).trans_le (Nat.le_of_lt_succ h))
          exact hfound.subset (List.mem_of_getLast? hlast)
        · rfl
    · rfl

theorem deleteKeys_ok {outcome : ℕ → Outcome} (h : ∀ i, outcome i = .served) (i : ℕ)
    (ks : List String) (objs : Objects) : (deleteKeys sv bucket outcome i ks objs).1 = .ok () := by
  induction ks generalizing i objs with
  | nil => rfl
  | cons k ks ih =>
    rw [deleteKeys, h i]
    exact ih (i + 1) _

/-- The loop ends well if every request is served. -/
theorem deletePages_ok {pages : List Page} {res : Except Error Unit}
    (hserved : ∀ page ∈ pages, page.list = .served ∧ ∀ i, page.delete i = .served)
    (h : deletePages sv path bucket pre pages token objs = some (res, objs')) : res = .ok () := by
  induction pages generalizing token objs with
  | nil => cases h
  | cons page pages ih =>
    obtain ⟨hlist, hdelete⟩ := hserved page (List.mem_cons_self ..)
    have ih := fun {token objs} => @ih token objs fun page hp =>
      hserved page (List.mem_cons_of_mem _ hp)
    rw [deletePages, hlist] at h
    simp only at h
    have hok := @deleteKeys_ok sv bucket page.delete hdelete 0
      (sv.list objs bucket pre token page.choice).contents objs
    rcases hdel : deleteKeys sv bucket page.delete 0
      (sv.list objs bucket pre token page.choice).contents objs with ⟨e | u, objs₁⟩
    · rw [hdel] at hok
      cases hok
    · rw [hdel] at h
      simp only at h
      split_ifs at h
      · split at h
        · exact ih h
        · cases h
          rfl
      · cases h
        rfl

/-! ### A service -/

/-- A service whose pages have at most so many keys and whose tokens are keys. -/
def Service.paged : Service where
  put objs bucket key body := Function.update objs bucket ((objs bucket).insert key body)
  delete objs bucket key := Function.update objs bucket ((objs bucket).erase key)
  list objs bucket pre token n :=
    let listed := objs.listed bucket pre token
    ⟨listed.take (n + 1), some (decide (n + 1 < listed.length)), (listed.take (n + 1)).getLast?⟩
  lastKey := id
  range first last body :=
    if last < first then some body
    else if first < body.length then some ((body.drop first).take (last + 1 - first))
    else none
  get?_put objs bucket key b k body := by
    by_cases hb : b = bucket
    · subst hb
      rw [Function.update_self, SortedMap.insert]
      split_ifs with hk
      · rw [hk.2, SortedMap.get?_upsert_self]
      · exact SortedMap.get?_upsert_ne _ (fun h => hk ⟨rfl, h⟩) _
    · rw [Function.update_of_ne hb, if_neg fun h => hb h.1]
  get?_delete objs bucket key b k := by
    by_cases hb : b = bucket
    · subst hb
      rw [Function.update_self]
      refine Option.ext fun v => ?_
      rw [SortedMap.get?_eq_some_iff, SortedMap.erase, SortedMap.mem_entries_filter]
      by_cases hk : k = key
      · simp [hk]
      · simp [hk, SortedMap.get?_eq_some_iff]
    · rw [Function.update_of_ne hb, if_neg fun h => hb h.1]
  list_prefix objs bucket pre token n := by
    rw [Option.map_id_fun, id_eq]
    exact List.take_prefix _ _
  list_all objs bucket pre token n h := by
    rw [Option.map_id_fun, id_eq]
    exact List.take_of_length_le (by simpa using h)
  list_next objs bucket pre token n h := by
    have hlt : n + 1 < (objs.listed bucket pre token).length := by simpa using h
    have hne : (objs.listed bucket pre token).take (n + 1) ≠ [] := by
      intro hnil
      rcases List.take_eq_nil_iff.mp hnil with hzero | hnil
      · cases hzero
      · rw [hnil] at hlt
        cases hlt
    exact ⟨_, List.getLast?_eq_some_getLast hne, List.getLast?_eq_some_getLast hne⟩
  range_eq first last body h := if_neg (not_lt.mpr h)
  range_ignored first last body h := if_pos h

end S3

end Skaldberg
