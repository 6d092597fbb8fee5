import Skaldberg.AwsS3Storage

/-!
# The storage is a store of files

To the catalog the storage is a flat store of files by URL (`S3.FileStore`): a file is there or not,
a writer puts all that it was given at once when it is closed, and a prefix of URLs can be removed.
`S3.trace_of_run` says that this is what every run of the storage looks like, on any service that
has the laws of `S3.Service`, whatever requests fail and whether or not they had an effect by then.
Reading a part of a file is the exception: an empty range asks for something else
(`S3.readRange_eq_slice_iff`).
-/

namespace Skaldberg

namespace S3

variable {sv : Service} {objs objs' objs'' : Objects} {bucket pre path : String}

/-! ### Files -/

/-- The file of a URL. -/
def fileAt (objs : Objects) (path : String) : Option Bytes :=
  match parseS3Path path with
  | .ok (bucket, key) => (objs bucket).get? key
  | .error _ => none

/-- The files by their URLs, and those that are being written. -/
structure FileStore where
  /-- The contents of the files. -/
  files : String → Option Bytes
  /-- The URLs of the files that are written, with what they are to have. -/
  writers : List (String × Option Bytes)

/-- The files of a storage. -/
def Storage.store (s : Storage) : FileStore where
  files := fileAt s.objs
  writers := s.writers.map fun w => (url w.bucket w.key, w.buffer)

@[simp] theorem Storage.store_files (s : Storage) : s.store.files = fileAt s.objs := rfl

/-- A text is the URL of an object. -/
def IsUrl (path : String) : Prop := ∃ bucket key, parseS3Path path = .ok (bucket, key)

/-- A request is answered if it can be, and otherwise there is an error. -/
def Answers (served : Prop) (a : Answer) (res : Except Error Answer) : Prop :=
  (served → res = .ok a) ∧ (¬served → ∃ e, res = .error e)

/-- The file of a URL has some contents now. -/
def FileStore.set (s : FileStore) (path : String) (contents : Option Bytes) : FileStore :=
  { s with files := Function.update s.files path contents }

/-- **What a request does to the files.** -/
def FileStore.Does (s : FileStore) : Op → Except Error Answer → FileStore → Prop
  | .exists path o, res, s' =>
    s' = s ∧ Answers (IsUrl path ∧ o = .served) (.bool (s.files path).isSome) res
  | .metadata path o, res, s' =>
    s' = s ∧ Answers (o = .served ∧ (s.files path).isSome)
      (.size ((s.files path).getD []).length) res
  | .read path o body, res, s' =>
    s' = s ∧ Answers (o = .served ∧ body = none ∧ (s.files path).isSome)
      (.bytes ((s.files path).getD [])) res
  | .readRange path start stop o body, res, s' =>
    s' = s ∧ (start < stop → Answers
      (o = .served ∧ body = none ∧ start < ((s.files path).getD []).length)
      (.bytes ((((s.files path).getD []).drop start).take (stop - start))) res)
  | .write path bs o, res, s' =>
    Answers (IsUrl path ∧ o = .served) .done res ∧
      (IsUrl path → s' = o.effect s (s.set path (some bs))) ∧ (¬IsUrl path → s' = s)
  | .delete path o, res, s' =>
    Answers (IsUrl path ∧ o = .served) .done res ∧
      (IsUrl path → s' = o.effect s (s.set path none)) ∧ (¬IsUrl path → s' = s)
  | .deletePrefix path _, res, s' =>
    ∃ gone ⊆ {p : String | path.toList <+: p.toList},
      (∀ p ∈ gone, s'.files p = none) ∧ (∀ p ∉ gone, s'.files p = s.files p) ∧
      s'.writers = s.writers ∧
      (res = .ok .done ∧ IsUrl path ∧ (∀ p, path.toList <+: p.toList → s'.files p = none) ∨
        ∃ e, res = .error e)
  | .writer path, res, s' =>
    Answers (IsUrl path) .done res ∧
      (IsUrl path → s' = { s with writers := s.writers ++ [(path, some [])] }) ∧
      (¬IsUrl path → s' = s)
  | .append id bs, res, s' =>
    ∃ path buffer, s.writers[id]? = some (path, buffer) ∧
      Answers (buffer ≠ none) .done res ∧
        s' = { s with writers := s.writers.set id (path, buffer.map (· ++ bs)) }
  | .close id o, res, s' =>
    ∃ path buffer, s.writers[id]? = some (path, buffer) ∧
      Answers (buffer ≠ none ∧ o = .served) .done res ∧
        s' = { (match buffer with
            | some bs => o.effect s (s.set path (some bs))
            | none => s) with writers := s.writers.set id (path, none) }

/-! ### The storage is a store of files -/

/-- The writers are for objects that have a URL. -/
def Storage.Inv (s : Storage) : Prop := ∀ w ∈ s.writers, '/' ∉ w.bucket.toList

theorem isUrl_url {key : String} (h : '/' ∉ bucket.toList) : IsUrl (url bucket key) :=
  ⟨bucket, key, parseS3Path_url h key⟩

theorem fileAt_url {key : String} (h : '/' ∉ bucket.toList) :
    fileAt objs (url bucket key) = (objs bucket).get? key := by
  rw [fileAt, parseS3Path_url h]

theorem fileAt_eq_none {e : Error} (h : parseS3Path path = .error e) : fileAt objs path = none := by
  rw [fileAt, h]

/-- Objects that differ under one URL alone. -/
theorem fileAt_eq_update {key : String} {contents : Option Bytes} (h : '/' ∉ bucket.toList)
    (hget : ∀ b k, (objs' b).get? k =
      if b = bucket ∧ k = key then contents else (objs b).get? k) :
    fileAt objs' = Function.update (fileAt objs) (url bucket key) contents := by
  funext path
  rw [Function.update_apply]
  rcases hparse : parseS3Path path with e | ⟨b, k⟩
  · have hne : path ≠ url bucket key := by
      rintro rfl
      rw [parseS3Path_url h] at hparse
      cases hparse
    rw [if_neg hne, fileAt, fileAt, hparse]
  · obtain ⟨hb, rfl⟩ := parseS3Path_eq_ok_iff.mp hparse
    have hiff : url b k = url bucket key ↔ b = bucket ∧ k = key := by
      constructor
      · intro heq
        rw [heq, parseS3Path_url h] at hparse
        cases hparse
        exact ⟨rfl, rfl⟩
      · rintro ⟨rfl, rfl⟩
        rfl
    simp only [fileAt_url hb, hget, hiff]

theorem fileAt_put (sv : Service) {key : String} (h : '/' ∉ bucket.toList) (body : Bytes) :
    fileAt (sv.put objs bucket key body) =
      Function.update (fileAt objs) (url bucket key) (some body) :=
  fileAt_eq_update h fun b k => sv.get?_put objs bucket key b k body

theorem fileAt_delete (sv : Service) {key : String} (h : '/' ∉ bucket.toList) :
    fileAt (sv.delete objs bucket key) = Function.update (fileAt objs) (url bucket key) none :=
  fileAt_eq_update h fun b k => sv.get?_delete objs bucket key b k

/-- **What `delete_prefix` does to the files.** -/
theorem deletePrefix_files {pages : List Page} {res : Except Error Unit}
    (h : deletePrefix sv path pages objs = some (res, objs')) :
    ∃ gone ⊆ {p : String | path.toList <+: p.toList},
      (∀ p ∈ gone, fileAt objs' p = none) ∧ (∀ p ∉ gone, fileAt objs' p = fileAt objs p) ∧
      (res = .ok () → IsUrl path ∧
        ∀ p, path.toList <+: p.toList → fileAt objs' p = none) := by
  rw [deletePrefix] at h
  rcases hparse : parseS3Path path with e | ⟨bucket, pre⟩
  · rw [hparse] at h
    cases h
    exact ⟨∅, Set.empty_subset _, nofun, fun _ _ => rfl, nofun⟩
  · rw [hparse] at h
    obtain ⟨hb, rfl⟩ := parseS3Path_eq_ok_iff.mp hparse
    obtain ⟨keys, hsub, hremoved, hall⟩ := removed_deletePages h
    refine ⟨{p | ∃ k ∈ keys, p = url bucket k}, ?_, ?_, fun p hp => ?_, fun hok =>
      ⟨isUrl_url hb, fun p hp => ?_⟩⟩
    · rintro p ⟨k, hk, rfl⟩
      exact (prefix_url_iff hb hb).mpr ⟨rfl, hsub hk⟩
    · rintro p ⟨k, hk, rfl⟩
      rw [fileAt_url hb, hremoved.gone k hk]
    · rcases hp' : parseS3Path p with e | ⟨b, k⟩
      · rw [fileAt_eq_none hp', fileAt_eq_none hp']
      · obtain ⟨hb', rfl⟩ := parseS3Path_eq_ok_iff.mp hp'
        rw [fileAt_url hb', fileAt_url hb', hremoved.kept b k]
        rintro ⟨rfl, hk⟩
        exact hp ⟨k, hk, rfl⟩
    · rcases hp' : parseS3Path p with e | ⟨b, k⟩
      · exact fileAt_eq_none hp'
      · obtain ⟨hb', rfl⟩ := parseS3Path_eq_ok_iff.mp hp'
        obtain ⟨rfl, hk⟩ := (prefix_url_iff hb hb').mp hp
        rw [fileAt_url hb]
        exact hall hok k hk nofun

theorem not_isUrl {e : Error} (h : parseS3Path path = .error e) : ¬IsUrl path := by
  rintro ⟨bucket, key, hok⟩
  rw [h] at hok
  cases hok

/-- What a request for an object that is there answers. -/
theorem getObject_eq {notFound context key : String} (o : Outcome) :
    (∃ body, o = .served ∧ (objs bucket).get? key = some body ∧
      getObject notFound context objs bucket key o = .ok body) ∨
    ¬(o = .served ∧ ((objs bucket).get? key).isSome = true) ∧
      ∃ e, getObject notFound context objs bucket key o = .error e := by
  rcases o with _ | ⟨applied, text⟩
  · rw [getObject]
    rcases (objs bucket).get? key with _ | body
    · exact Or.inr ⟨fun h => (by cases h.2), _, rfl⟩
    · exact Or.inl ⟨body, rfl, rfl, rfl⟩
  · exact Or.inr ⟨fun h => (by cases h.1), _, rfl⟩

/-- **A range that is not empty is read as it stands.** -/
theorem answers_readRange {notFound invalidRange key : String} {start stop : ℕ} (h : start < stop)
    (o : Outcome) (body : Option String) :
    Answers (o = .served ∧ body = none ∧ start < (((objs bucket).get? key).getD []).length)
      (.bytes (((((objs bucket).get? key).getD []).drop start).take (stop - start)))
      ((readRange sv notFound invalidRange objs bucket key start stop o body).map .bytes) := by
  rcases o with _ | ⟨applied, text⟩
  · rw [readRange]
    rcases (objs bucket).get? key with _ | contents
    · exact ⟨fun h => absurd h.2.2 (Nat.not_lt_zero _), fun _ => ⟨_, rfl⟩⟩
    · have hrange := sv.range_eq start (stop - 1) contents (by omega)
      have hlen : stop - 1 + 1 - start = stop - start := by omega
      rw [hlen] at hrange
      simp only [hrange, Option.getD_some]
      split_ifs with hstart
      · rcases body with _ | text
        · exact ⟨fun _ => rfl, fun hno => absurd ⟨trivial, rfl, hstart⟩ hno⟩
        · exact ⟨fun h => (by cases h.2.1), fun _ => ⟨_, rfl⟩⟩
      · exact ⟨fun hno => absurd hno.2.2 hstart, fun _ => ⟨_, rfl⟩⟩
  · exact ⟨fun h => (by cases h.1), fun _ => ⟨_, rfl⟩⟩

/-- A request that changes the objects changes the files. -/
theorem does_change {context : String} {s : Storage} (h : IsUrl path) {o : Outcome}
    {res : Except Error Answer} {contents : Option Bytes}
    (hfiles : fileAt objs' = Function.update (fileAt s.objs) path contents)
    (hres : change context s.objs objs' o = (res, objs'')) :
    Answers (IsUrl path ∧ o = .served) .done res ∧
      ({ s with objs := objs'' } : Storage).store =
        o.effect s.store (s.store.set path contents) := by
  have hset : ({ s with objs := objs' } : Storage).store = s.store.set path contents := by
    rw [Storage.store, FileStore.set, Storage.store, hfiles]
  rcases o with _ | ⟨_ | _, text⟩
  · cases hres
    exact ⟨⟨fun _ => rfl, fun hno => absurd ⟨h, rfl⟩ hno⟩, hset⟩
  · cases hres
    exact ⟨⟨fun hs => (by cases hs.2), fun _ => ⟨_, rfl⟩⟩, rfl⟩
  · cases hres
    exact ⟨⟨fun hs => (by cases hs.2), fun _ => ⟨_, rfl⟩⟩, hset⟩

variable {notFound invalidRange : String} {s s' : Storage} {op : Op} {res : Except Error Answer}

theorem does_exists {o : Outcome}
    (h : step sv notFound invalidRange s (.exists path o) = some (res, s')) :
    s' = s ∧ s.store.Does (.exists path o) res s'.store := by
  unfold step at h
  dsimp only at h
  rcases hparse : parseS3Path path with e | ⟨bucket, key⟩
  · rw [hparse] at h
    cases h
    exact ⟨rfl, rfl, fun hs => absurd hs.1 (not_isUrl hparse), fun _ => ⟨e, rfl⟩⟩
  · rw [hparse] at h
    obtain ⟨hb, rfl⟩ := parseS3Path_eq_ok_iff.mp hparse
    rcases o with _ | ⟨applied, text⟩
    · cases h
      refine ⟨rfl, rfl, fun _ => ?_, fun hno => absurd ⟨isUrl_url hb, rfl⟩ hno⟩
      rw [Storage.store_files, fileAt_url hb]
    · cases h
      exact ⟨rfl, rfl, fun hs => (by cases hs.2), fun _ => ⟨_, rfl⟩⟩

theorem does_metadata {o : Outcome}
    (h : step sv notFound invalidRange s (.metadata path o) = some (res, s')) :
    s' = s ∧ s.store.Does (.metadata path o) res s'.store := by
  unfold step at h
  dsimp only at h
  rcases hparse : parseS3Path path with e | ⟨bucket, key⟩
  · rw [hparse] at h
    cases h
    refine ⟨rfl, rfl, fun hs => ?_, fun _ => ⟨e, rfl⟩⟩
    rw [Storage.store_files, fileAt_eq_none hparse] at hs
    cases hs.2
  · rw [hparse] at h
    cases h
    obtain ⟨hb, rfl⟩ := parseS3Path_eq_ok_iff.mp hparse
    refine ⟨rfl, rfl, ?_⟩
    rw [Storage.store_files, fileAt_url hb]
    rcases @getObject_eq s.objs bucket notFound ("head_object " ++ url bucket key) key o with
      ⟨body, rfl, hget, hres⟩ | ⟨hno, e, hres⟩
    · rw [hres, hget]
      exact ⟨fun _ => rfl, fun hno => absurd ⟨rfl, rfl⟩ hno⟩
    · rw [hres]
      exact ⟨fun hs => absurd hs hno, fun _ => ⟨e, rfl⟩⟩

theorem does_read {o : Outcome} {body : Option String}
    (h : step sv notFound invalidRange s (.read path o body) = some (res, s')) :
    s' = s ∧ s.store.Does (.read path o body) res s'.store := by
  unfold step at h
  dsimp only at h
  rcases hparse : parseS3Path path with e | ⟨bucket, key⟩
  · rw [hparse] at h
    cases h
    refine ⟨rfl, rfl, fun hs => ?_, fun _ => ⟨e, rfl⟩⟩
    rw [Storage.store_files, fileAt_eq_none hparse] at hs
    cases hs.2.2
  · rw [hparse] at h
    obtain ⟨hb, rfl⟩ := parseS3Path_eq_ok_iff.mp hparse
    simp only at h
    rcases @getObject_eq s.objs bucket notFound ("get_object " ++ url bucket key) key o with
      ⟨bs, rfl, hget, hres⟩ | ⟨hno, e, hres⟩
    · rw [hres] at h
      rcases body with _ | text
      · cases h
        refine ⟨rfl, rfl, ?_⟩
        rw [Storage.store_files, fileAt_url hb, hget]
        exact ⟨fun _ => rfl, fun hno => absurd ⟨rfl, rfl, rfl⟩ hno⟩
      · cases h
        exact ⟨rfl, rfl, fun hs => (by cases hs.2.1), fun _ => ⟨_, rfl⟩⟩
    · rw [hres] at h
      cases h
      refine ⟨rfl, rfl, fun hs => ?_, fun _ => ⟨e, rfl⟩⟩
      rw [Storage.store_files, fileAt_url hb] at hs
      exact absurd ⟨hs.1, hs.2.2⟩ hno

theorem does_readRange {start stop : ℕ} {o : Outcome} {body : Option String}
    (h : step sv notFound invalidRange s (.readRange path start stop o body) = some (res, s')) :
    s' = s ∧ s.store.Does (.readRange path start stop o body) res s'.store := by
  unfold step at h
  dsimp only at h
  rcases hparse : parseS3Path path with e | ⟨bucket, key⟩
  · rw [hparse] at h
    cases h
    refine ⟨rfl, rfl, fun _ => ⟨fun hs => ?_, fun _ => ⟨e, rfl⟩⟩⟩
    rw [Storage.store_files, fileAt_eq_none hparse] at hs
    exact absurd hs.2.2 (Nat.not_lt_zero _)
  · rw [hparse] at h
    cases h
    obtain ⟨hb, rfl⟩ := parseS3Path_eq_ok_iff.mp hparse
    refine ⟨rfl, rfl, fun hlt => ?_⟩
    rw [Storage.store_files, fileAt_url hb]
    exact answers_readRange hlt o body

theorem does_write {bs : Bytes} {o : Outcome}
    (h : step sv notFound invalidRange s (.write path bs o) = some (res, s')) :
    s'.writers = s.writers ∧ s.store.Does (.write path bs o) res s'.store := by
  unfold step at h
  dsimp only at h
  rcases hparse : parseS3Path path with e | ⟨bucket, key⟩
  · rw [hparse] at h
    cases h
    have hno := not_isUrl hparse
    exact ⟨rfl, ⟨fun hs => absurd hs.1 hno, fun _ => ⟨e, rfl⟩⟩, fun hs => absurd hs hno,
      fun _ => rfl⟩
  · rw [hparse] at h
    obtain ⟨hb, rfl⟩ := parseS3Path_eq_ok_iff.mp hparse
    simp only at h
    rcases hres : change ("put_object " ++ url bucket key) s.objs (sv.put s.objs bucket key bs) o
      with ⟨res', objs⟩
    rw [hres] at h
    cases h
    obtain ⟨hanswers, hstore⟩ := does_change (isUrl_url hb) (fileAt_put sv hb bs) hres
    exact ⟨rfl, hanswers, fun _ => hstore, fun hno => absurd (isUrl_url hb) hno⟩

theorem does_delete {o : Outcome}
    (h : step sv notFound invalidRange s (.delete path o) = some (res, s')) :
    s'.writers = s.writers ∧ s.store.Does (.delete path o) res s'.store := by
  unfold step at h
  dsimp only at h
  rcases hparse : parseS3Path path with e | ⟨bucket, key⟩
  · rw [hparse] at h
    cases h
    have hno := not_isUrl hparse
    exact ⟨rfl, ⟨fun hs => absurd hs.1 hno, fun _ => ⟨e, rfl⟩⟩, fun hs => absurd hs hno,
      fun _ => rfl⟩
  · rw [hparse] at h
    obtain ⟨hb, rfl⟩ := parseS3Path_eq_ok_iff.mp hparse
    simp only at h
    rcases hres : change ("delete_object " ++ url bucket key) s.objs (sv.delete s.objs bucket key) o
      with ⟨res', objs⟩
    rw [hres] at h
    cases h
    obtain ⟨hanswers, hstore⟩ := does_change (isUrl_url hb) (fileAt_delete sv hb) hres
    exact ⟨rfl, hanswers, fun _ => hstore, fun hno => absurd (isUrl_url hb) hno⟩

theorem does_deletePrefix {pages : List Page}
    (h : step sv notFound invalidRange s (.deletePrefix path pages) = some (res, s')) :
    s'.writers = s.writers ∧ s.store.Does (.deletePrefix path pages) res s'.store := by
  unfold step at h
  dsimp only at h
  obtain ⟨⟨res', objs⟩, hpages, heq⟩ := Option.map_eq_some_iff.mp h
  cases heq
  obtain ⟨gone, hsub, hgone, hkept, hall⟩ := deletePrefix_files hpages
  refine ⟨rfl, gone, hsub, hgone, hkept, rfl, ?_⟩
  rcases res' with e | ⟨⟨⟩⟩
  · exact Or.inr ⟨e, rfl⟩
  · exact Or.inl ⟨rfl, hall rfl⟩

theorem does_writer (hinv : s.Inv)
    (h : step sv notFound invalidRange s (.writer path) = some (res, s')) :
    s'.Inv ∧ s.store.Does (.writer path) res s'.store := by
  unfold step at h
  dsimp only at h
  rcases hparse : parseS3Path path with e | ⟨bucket, key⟩
  · rw [hparse] at h
    cases h
    have hno := not_isUrl hparse
    exact ⟨hinv, ⟨fun hs => absurd hs hno, fun _ => ⟨e, rfl⟩⟩, fun hs => absurd hs hno,
      fun _ => rfl⟩
  · rw [hparse] at h
    cases h
    obtain ⟨hb, rfl⟩ := parseS3Path_eq_ok_iff.mp hparse
    refine ⟨fun w hw => ?_, ⟨fun _ => rfl, fun hno => absurd (isUrl_url hb) hno⟩, fun _ => ?_,
      fun hno => absurd (isUrl_url hb) hno⟩
    · rcases List.mem_append.mp hw with hw | hw
      · exact hinv w hw
      · rw [List.mem_singleton.mp hw]
        exact hb
    · simp [Storage.store]

/-- A writer that has changed what it holds. -/
theorem inv_set {w : FileWrite} {id : ℕ} {buffer : Option Bytes} (hinv : s.Inv)
    (hw : s.writers[id]? = some w) :
    ∀ w' ∈ s.writers.set id { w with buffer := buffer }, '/' ∉ w'.bucket.toList := by
  intro w' hw'
  rcases List.mem_or_eq_of_mem_set hw' with hw' | rfl
  · exact hinv w' hw'
  · exact hinv w (List.mem_of_getElem? hw)

theorem store_set {w : FileWrite} {id : ℕ} {buffer : Option Bytes} :
    ({ s with writers := s.writers.set id { w with buffer := buffer } } : Storage).store =
      { s.store with writers := s.store.writers.set id (url w.bucket w.key, buffer) } := by
  simp [Storage.store, List.map_set]

theorem does_append {id : ℕ} {bs : Bytes} (hinv : s.Inv)
    (h : step sv notFound invalidRange s (.append id bs) = some (res, s')) :
    s'.Inv ∧ s.store.Does (.append id bs) res s'.store := by
  unfold step at h
  dsimp only at h
  obtain ⟨w, hw, heq⟩ := Option.map_eq_some_iff.mp h
  have hstore : s.store.writers[id]? = some (url w.bucket w.key, w.buffer) := by
    rw [Storage.store, List.getElem?_map, hw]
    rfl
  obtain ⟨bucket, key, buffer⟩ := w
  rw [FileWrite.write] at heq
  rcases buffer with _ | buf
  · cases heq
    exact ⟨inv_set hinv hw, _, _, hstore, ⟨fun hne => absurd rfl hne, fun _ => ⟨_, rfl⟩⟩,
      store_set (w := ⟨bucket, key, none⟩)⟩
  · cases heq
    exact ⟨inv_set hinv hw, _, _, hstore, ⟨fun _ => rfl, fun hno => absurd nofun hno⟩,
      store_set (w := ⟨bucket, key, some buf⟩)⟩

theorem does_close {id : ℕ} {o : Outcome} (hinv : s.Inv)
    (h : step sv notFound invalidRange s (.close id o) = some (res, s')) :
    s'.Inv ∧ s.store.Does (.close id o) res s'.store := by
  unfold step at h
  dsimp only at h
  obtain ⟨w, hw, heq⟩ := Option.map_eq_some_iff.mp h
  have hstore : s.store.writers[id]? = some (url w.bucket w.key, w.buffer) := by
    rw [Storage.store, List.getElem?_map, hw]
    rfl
  obtain ⟨bucket, key, buffer⟩ := w
  have hb : '/' ∉ bucket.toList := hinv _ (List.mem_of_getElem? hw)
  rw [FileWrite.close] at heq
  rcases buffer with _ | buf
  · cases heq
    exact ⟨inv_set hinv hw, _, _, hstore, ⟨fun hs => absurd rfl hs.1, fun _ => ⟨_, rfl⟩⟩,
      store_set (w := ⟨bucket, key, none⟩)⟩
  · have hput : fileAt (sv.put s.objs bucket key buf) = _ := fileAt_put sv hb buf
    rcases o with _ | ⟨_ | _, text⟩
    · cases heq
      refine ⟨inv_set hinv hw, _, _, hstore, ⟨fun _ => rfl, fun hno => absurd ⟨nofun, rfl⟩ hno⟩, ?_⟩
      simp [Storage.store, List.map_set, Outcome.effect, FileStore.set, hput]
    · cases heq
      refine ⟨inv_set hinv hw, _, _, hstore, ⟨fun hs => (by cases hs.2), fun _ => ⟨_, rfl⟩⟩, ?_⟩
      simp [Storage.store, List.map_set, Outcome.effect]
    · cases heq
      refine ⟨inv_set hinv hw, _, _, hstore, ⟨fun hs => (by cases hs.2), fun _ => ⟨_, rfl⟩⟩, ?_⟩
      simp [Storage.store, List.map_set, Outcome.effect, FileStore.set, hput]

/-- **A request to the storage does to the files what it says.** -/
theorem does_of_step (hinv : s.Inv) (h : step sv notFound invalidRange s op = some (res, s')) :
    s'.Inv ∧ s.store.Does op res s'.store := by
  have hread : s' = s ∧ s.store.Does op res s'.store → s'.Inv ∧ s.store.Does op res s'.store :=
    fun hdoes => ⟨hdoes.1 ▸ hinv, hdoes.2⟩
  have hchange : s'.writers = s.writers ∧ s.store.Does op res s'.store →
      s'.Inv ∧ s.store.Does op res s'.store := by
    rintro ⟨hwriters, hdoes⟩
    refine ⟨fun w hw => hinv w ?_, hdoes⟩
    rwa [hwriters] at hw
  cases op with
  | «exists» path o => exact hread (does_exists h)
  | metadata path o => exact hread (does_metadata h)
  | read path o body => exact hread (does_read h)
  | readRange path start stop o body => exact hread (does_readRange h)
  | write path bs o => exact hchange (does_write h)
  | delete path o => exact hchange (does_delete h)
  | deletePrefix path pages => exact hchange (does_deletePrefix h)
  | writer path => exact does_writer hinv h
  | append id bs => exact does_append hinv h
  | close id o => exact does_close hinv h

/-! ### Runs -/

/-- Answer several requests. -/
def run (sv : Service) (notFound invalidRange : String) (s : Storage) :
    List Op → Option (List (Except Error Answer) × Storage)
  | [] => some ([], s)
  | op :: ops =>
    (step sv notFound invalidRange s op).bind fun r =>
      (run sv notFound invalidRange r.2 ops).map fun r' => (r.1 :: r'.1, r'.2)

/-- Requests with these answers lead from one store of files to another. -/
def FileStore.Behaves (s : FileStore) :
    List Op → List (Except Error Answer) → FileStore → Prop
  | [], [], s' => s' = s
  | op :: ops, res :: ress, s' => ∃ s₁, s.Does op res s₁ ∧ s₁.Behaves ops ress s'
  | _, _, _ => False

/-- **The storage is a store of files**: every run of it, whatever fails, is one of the files by
their URLs. -/
theorem trace_of_run {notFound invalidRange : String} {objs : Objects} {ops : List Op}
    {ress : List (Except Error Answer)} {s' : Storage}
    (h : run sv notFound invalidRange ⟨objs, []⟩ ops = some (ress, s')) :
    FileStore.Behaves ⟨fileAt objs, []⟩ ops ress s'.store := by
  have hrun : ∀ (ops : List Op) (s : Storage) (ress : List (Except Error Answer)), s.Inv →
      run sv notFound invalidRange s ops = some (ress, s') → s.store.Behaves ops ress s'.store := by
    intro ops
    induction ops with
    | nil =>
      intro s ress _ h
      cases h
      exact rfl
    | cons op ops ih =>
      intro s ress hinv h
      obtain ⟨⟨res, s₁⟩, hstep, h⟩ := Option.bind_eq_some_iff.mp h
      obtain ⟨⟨ress', s''⟩, hrest, heq⟩ := Option.map_eq_some_iff.mp h
      cases heq
      obtain ⟨hinv', hdoes⟩ := does_of_step hinv hstep
      exact ⟨s₁.store, hdoes, ih s₁ ress' hinv' hrest⟩
  exact hrun ops ⟨objs, []⟩ ress nofun h

/-- A file that is written in two pieces and closed, the answer getting lost, which a later piece
comes too late for. -/
theorem trace_of_run_lost_answer :
    ∃ ops ress s', run .paged "no such key" "invalid range" ⟨fun _ => .empty, []⟩ ops =
        some (ress, s') ∧
      ress[5]? = some (.ok (.bytes [1, 2])) ∧
      FileStore.Behaves ⟨fileAt fun _ => .empty, []⟩ ops ress s'.store := by
  let ops : List Op := [.writer "s3://b/k", .append 0 [1], .append 0 [2],
    .close 0 (.failed true "timed out"), .append 0 [3], .read "s3://b/k" .served none]
  have hress : ((run .paged "no such key" "invalid range" ⟨fun _ => .empty, []⟩ ops).bind
      fun r => r.1[5]?) = some (.ok (.bytes [1, 2])) := by
    rfl
  obtain ⟨⟨ress, s'⟩, hrun, hread⟩ := Option.bind_eq_some_iff.mp hress
  exact ⟨ops, ress, s', hrun, hread, trace_of_run hrun⟩

/-! ### Prefixes and ranges -/

/-- **Removing a prefix ends**, however the service cuts its listing into pages and whatever it
fails to do, with no more pages than there are files under the prefix, and one. No other file is
touched, and a file under the prefix is left as it is or removed; all of them are if it succeeds, as
it does if every request is served. -/
theorem deletePrefix_spec (sv : Service) {objs : Objects} {bucket pre : String}
    (hb : '/' ∉ bucket.toList)
    {pages : List Page} (hpages : (objs.listed bucket pre none).length < pages.length) :
    ∃ res objs', deletePrefix sv (url bucket pre) pages objs = some (res, objs') ∧
      (∀ p, ¬(url bucket pre).toList <+: p.toList → fileAt objs' p = fileAt objs p) ∧
      (∀ p, fileAt objs' p = fileAt objs p ∨ fileAt objs' p = none) ∧
      (res = .ok () → ∀ p, (url bucket pre).toList <+: p.toList → fileAt objs' p = none) ∧
      ((∀ page ∈ pages, page.list = .served ∧ ∀ i, page.delete i = .served) → res = .ok ()) := by
  have hsome := @isSome_deletePages sv objs bucket pre (url bucket pre) none pages hpages
  obtain ⟨⟨res, objs'⟩, hdel⟩ := Option.isSome_iff_exists.mp hsome
  have hdone : deletePrefix sv (url bucket pre) pages objs = some (res, objs') := by
    rw [deletePrefix, parseS3Path_url hb]
    exact hdel
  obtain ⟨gone, hsub, hgone, hkept, hall⟩ := deletePrefix_files hdone
  refine ⟨res, objs', hdone, fun p hp => hkept p fun hmem => hp (hsub hmem), fun p => ?_,
    fun hok => (hall hok).2, fun hserved => deletePages_ok hserved hdel⟩
  by_cases hp : p ∈ gone
  · exact Or.inr (hgone p hp)
  · exact Or.inl (hkept p hp)

/-- Two files under a prefix and one that is not. -/
def dataFiles : Objects := fun _ => .ofList [("data/1", [1]), ("data/2", [2]), ("meta", [3])]

/-- Their removal in pages of one key, the second deletion failing with its effect. -/
def removalPages : List Page :=
  [⟨0, .served, fun _ => .served⟩, ⟨0, .served, fun _ => .failed true "timed out"⟩,
    ⟨0, .served, fun _ => .served⟩]

theorem deletePrefix_spec_two_pages :
    ∃ res objs', deletePrefix .paged (url "b" "data/") removalPages dataFiles = some (res, objs') ∧
      ∀ p, ¬(url "b" "data/").toList <+: p.toList → fileAt objs' p = fileAt dataFiles p := by
  obtain ⟨res, objs', hdone, hkept, -⟩ :=
    @deletePrefix_spec .paged dataFiles "b" "data/" (by decide) removalPages (by decide)
  exact ⟨res, objs', hdone, hkept⟩

/-- **When a part of a file is what it should be**: exactly when the range is not empty and begins
in the file. An empty range is read as all of the file, or its first byte if it begins there. -/
theorem readRange_eq_slice_iff {notFound invalidRange bucket key : String} {objs : Objects}
    {body : Bytes} (hbody : (objs bucket).get? key = some body) (start stop : ℕ) :
    readRange sv notFound invalidRange objs bucket key start stop .served none =
        .ok ((body.drop start).take (stop - start)) ↔
      start < stop ∧ start < body.length ∨ 0 < start ∧ stop ≤ start ∧ body = [] := by
  rw [readRange, hbody]
  simp only
  rcases Nat.lt_or_ge start stop with hlt | hge
  · have hlen : stop - 1 + 1 - start = stop - start := by omega
    rw [sv.range_eq _ _ _ (by omega), hlen]
    split_ifs with hstart
    · simp [hlt, hstart]
    · refine ⟨nofun, fun hno => ?_⟩
      omega
  · have hslice : (body.drop start).take (stop - start) = [] := by
      rw [Nat.sub_eq_zero_of_le hge, List.take_zero]
    rw [hslice]
    rcases Nat.eq_zero_or_pos start with rfl | hpos
    · -- the header asks for the first byte
      obtain rfl : stop = 0 := by omega
      rw [sv.range_eq _ _ _ (Nat.zero_le _)]
      cases body with
      | nil => exact ⟨nofun, fun h => by omega⟩
      | cons b body => simp
    · rw [sv.range_ignored _ _ _ (by omega)]
      have hno : ¬start < stop := by omega
      simp [hno, hpos, hge]

end S3

end Skaldberg
