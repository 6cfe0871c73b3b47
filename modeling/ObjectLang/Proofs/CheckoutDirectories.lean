import ObjectLang.Proofs.Resolving

/-! Where checkouts stand. The name of a version's directory is one part of a path, whatever the version
is, but it may be one of the parts made of dots. No commit's hash has them, so a checkout that was made is
right below the directory of its package. A checkout that is taken as it is has the name of a revision,
and there the dots lead to the directory of the package itself or to the one above, which are there. -/

namespace ObjectLang

namespace Text

theorem toList_pathSegment {s : String} (h : trim s ≠ "") : (pathSegment s).toList =
    (trim s).toList.map fun c => if isSegmentChar c then c else '_' := by
  unfold trim at h ⊢
  unfold pathSegment
  split
  · next hnil => rw [hnil] at h; exact absurd rfl h
  · rw [String.toList_ofList, String.toList_ofList]

theorem pathSegment_of_trim_eq_empty {s : String} (h : trim s = "") : pathSegment s = "head" := by
  have hnil : trimChars s.toList = [] := by
    have hlist := congrArg String.toList h
    rwa [trim, String.toList_ofList] at hlist
  rw [pathSegment, hnil]

theorem noSlash_pathSegment (s : String) : '/' ∉ (pathSegment s).toList := by
  by_cases h : trim s = ""
  · rw [pathSegment_of_trim_eq_empty h]
    decide
  · rw [toList_pathSegment h, List.mem_map]
    rintro ⟨c, -, hc⟩
    split at hc
    · next hsegment => rw [hc] at hsegment; exact absurd hsegment (by decide)
    · exact absurd hc (by decide)

theorem pathSegment_ne_empty (s : String) : pathSegment s ≠ "" := by
  by_cases h : trim s = ""
  · rw [pathSegment_of_trim_eq_empty h]
    decide
  · intro hempty
    have hlist := toList_pathSegment h
    rw [hempty] at hlist
    exact h (String.toList_eq_nil_iff.mp (List.map_eq_nil_iff.mp hlist.symm))

/-- Dots are kept, and nothing becomes a dot. -/
theorem pathSegment_eq_dots_iff {s dots : String} {n : Nat}
    (hdots : dots.toList = List.replicate (n + 1) '.') : pathSegment s = dots ↔ trim s = dots := by
  rw [← String.toList_inj, ← String.toList_inj, hdots]
  by_cases h : trim s = ""
  · rw [pathSegment_of_trim_eq_empty h, h]
    exact iff_of_false (by simp [List.replicate_succ]) (by simp [List.replicate_succ])
  · have hdot : ∀ c : Char, (if isSegmentChar c then c else '_') = '.' ↔ c = '.' := by
      intro c
      split
      · rfl
      · next hother =>
          refine iff_of_false (by decide) ?_
          rintro rfl
          exact hother rfl
    rw [toList_pathSegment h, List.eq_replicate_iff, List.eq_replicate_iff, List.length_map,
      List.forall_mem_map]
    simp only [hdot]

/-- The directory of a version has a name of its own unless the version is made of one or two dots. -/
theorem isPlain_pathSegment_iff {s : String} :
    Path.IsPlain (pathSegment s) ↔ trim s ≠ "." ∧ trim s ≠ ".." := by
  have hhere : pathSegment s = "." ↔ trim s = "." := @pathSegment_eq_dots_iff s "." 0 rfl
  have hup : pathSegment s = ".." ↔ trim s = ".." := @pathSegment_eq_dots_iff s ".." 1 rfl
  constructor
  · intro h
    exact ⟨fun heq => h.ne_here (hhere.mpr heq), fun heq => h.ne_up (hup.mpr heq)⟩
  · rintro ⟨hne, hne'⟩
    exact ⟨pathSegment_ne_empty s, fun heq => hne (hhere.mp heq), fun heq => hne' (hup.mp heq),
      noSlash_pathSegment s⟩

end Text

namespace Repository

/-- A hash as commits have it: forty hexadecimal digits. -/
def IsHash (text : String) : Prop :=
  text.toList.length = 40 ∧ ∀ c ∈ text.toList, c ∈ "0123456789abcdef".toList

instance (text : String) : Decidable (IsHash text) :=
  decidable_of_iff (text.toList.length = 40 ∧
      (text.toList.all fun c => "0123456789abcdef".toList.contains c) = true) <| by
    simp only [IsHash, List.all_eq_true, List.contains_iff_mem]

/-- A repository in which commits are known by such hashes. -/
structure Hashed (r : Repository) : Prop where
  history : ∀ c ∈ r.history, IsHash c.hash
  tags : ∀ t ∈ r.tags, IsHash t.2
  branches : ∀ b ∈ r.branches, IsHash b.2

variable {r : Repository} (h : r.Hashed)
include h

theorem Hashed.cloneReferences {reference : String × String} (hmem : reference ∈ r.cloneReferences) :
    IsHash reference.2 := by
  unfold Repository.cloneReferences head? at hmem
  cases hhistory : r.history with
  | nil => rw [hhistory] at hmem; cases hmem
  | cons c rest =>
      have hhead : IsHash c.hash := h.history c (by rw [hhistory]; exact List.mem_cons_self)
      rw [hhistory] at hmem
      simp only [List.head?_cons, Option.map_some, List.mem_append, List.mem_cons, List.mem_map,
        List.not_mem_nil, or_false] at hmem
      rcases hmem with ((((rfl | rfl) | ⟨t, ht, rfl⟩) | ⟨b, hb, rfl⟩) | rfl)
      · exact hhead
      · exact hhead
      · exact h.tags t ht
      · exact h.branches b hb
      · exact hhead

theorem Hashed.find? {name hash : String} (hfind : r.find? name = some hash) : IsHash hash := by
  have hnamed : (expansions name).findSome? (fun full => r.cloneReferences.lookup full) = some hash →
      IsHash hash := by
    intro hsome
    obtain ⟨full, -, hlookup⟩ := List.exists_of_findSome?_eq_some hsome
    obtain ⟨before, after, hreferences, -⟩ := List.lookup_eq_some_iff.mp hlookup
    have hmem : (full, hash) ∈ r.cloneReferences := by simp [hreferences]
    exact h.cloneReferences hmem
  unfold Repository.find? at hfind
  dsimp only at hfind
  split at hfind
  · cases hfound : r.history.find? fun c =>
        (name.toList.map Char.toLower).isPrefixOf c.hash.toList with
    | none =>
        rw [hfound] at hfind
        exact hnamed hfind
    | some c =>
        rw [hfound] at hfind
        cases hfind
        exact h.history c (List.mem_of_find?_eq_some hfound)
  · exact hnamed hfind

theorem Hashed.stepBack {hash found : String} {step : BackStep}
    (hstep : r.stepBack hash step = .ok found) : IsHash found := by
  have hgo : ∀ n, Repository.stepBack.go r hash n = .ok found → IsHash found := by
    intro n hn
    unfold Repository.stepBack.go at hn
    split at hn
    · next c rest hdrop =>
        cases hn
        have hsince : c ∈ r.since hash := List.mem_of_mem_drop (hdrop ▸ List.mem_cons_self)
        exact h.history c ((List.dropWhile_sublist _).subset hsince)
    · cases hn
  cases step with
  | parent n => exact hgo _ hstep
  | ancestor n => exact hgo _ hstep

/-- Every revision leads to a commit with such a hash. -/
theorem Hashed.resolve {revision hash : String} (hresolve : r.resolve revision = .ok hash) :
    IsHash hash := by
  have hsteps : ∀ (steps : List BackStep) (start : String), IsHash start →
      steps.foldlM r.stepBack start = .ok hash → IsHash hash := by
    intro steps
    induction steps with
    | nil =>
        intro start hstart hfold
        cases hfold
        exact hstart
    | cons step steps ih =>
        intro start _ hfold
        rw [List.foldlM_cons] at hfold
        obtain ⟨next, hnext, hfold⟩ := ok_of_bind hfold
        exact ih next (h.stepBack hnext) hfold
  obtain ⟨parsed, -, hresolve⟩ := ok_of_bind hresolve
  cases hfind : r.find? parsed.reference with
  | none =>
      rw [hfind] at hresolve
      cases hresolve
  | some start =>
      rw [hfind] at hresolve
      exact hsteps parsed.steps start (h.find? hfind) hresolve

omit h in
theorem IsHash.isTrimmed {text : String} (h : IsHash text) : Text.IsTrimmed text.toList := by
  have hdigits : ("0123456789abcdef".toList.all fun c => !Text.isBlank c) = true := by decide
  refine Text.isTrimmed_of_forall fun c hc => ?_
  have hblank := List.all_eq_true.mp hdigits c (h.2 c hc)
  rwa [Bool.not_eq_true'] at hblank

end Repository

/-- Every revision leads to a commit with such a hash, in whatever clone. -/
def Repositories.Hashed (r : Repositories) : Prop :=
  ∀ {files address clone revision hash}, r.clone files address = .ok clone →
    clone.resolve revision = .ok hash → Repository.IsHash hash

theorem Repository.hashed_reachable {repositories : List Repository}
    (h : ∀ r ∈ repositories, r.Hashed) (cwd : String) : (reachable cwd repositories).Hashed := by
  intro files address clone revision hash hclone hresolve
  obtain ⟨r, hr, rfl⟩ := reachable_eq_ok hclone
  cases hfound : r.resolve revision with
  | error cause => simp [Repository.clone, hfound, Except.mapError] at hresolve
  | ok found =>
      simp only [Repository.clone, hfound, Except.mapError, Except.ok.injEq] at hresolve
      exact hresolve ▸ (h r hr).resolve hfound

/-- A pinned version has the hash in it, so it is longer than one or two dots. -/
theorem le_length_pinnedVersion (descriptor : String) {hash : String} (h : Repository.IsHash hash) :
    40 ≤ (Text.trim (pinnedVersion descriptor hash)).toList.length := by
  have htrim := h.isTrimmed.trim_eq
  have hne : hash.toList ≠ [] := by
    intro hnil
    have hlength := h.1
    rw [hnil] at hlength
    cases hlength
  have hempty : hash ≠ "" := fun heq => hne (by rw [heq]; rfl)
  unfold pinnedVersion
  dsimp only
  rw [htrim, if_neg hempty]
  split
  · rw [htrim, h.1]
  · have hat : Text.IsTrimmed "@".toList := by
      refine Text.isTrimmed_of_forall fun c hc => ?_
      obtain rfl := List.mem_singleton.mp hc
      decide
    have hfront : Text.IsTrimmed (Text.trim descriptor ++ "@").toList := by
      rw [String.toList_append]
      exact hat.append (by decide) (Text.isTrimmed_of_trim_eq (Text.trim_trim descriptor))
    have hwhole : Text.IsTrimmed (Text.trim descriptor ++ "@" ++ hash).toList := by
      rw [String.toList_append]
      exact h.isTrimmed.append hne hfront
    rw [hwhole.trim_eq, String.toList_append, List.length_append, h.1]
    exact Nat.le_add_left _ _

theorem Text.isPlain_packageName {name : String} (h : packageName name ≠ "") :
    Path.IsPlain (packageName name) := by
  have hdots : isNameChar '.' = false ∧ isNameChar '/' = false := by decide
  have hnot : ∀ c, isNameChar c = false → c ∉ (packageName name).toList := by
    intro c hc hmem
    rw [isNameChar_of_mem_packageName hmem] at hc
    cases hc
  refine ⟨h, fun heq => hnot '.' hdots.1 ?_, fun heq => hnot '.' hdots.1 ?_, hnot '/' hdots.2⟩
  · rw [heq]
    decide
  · rw [heq]
    decide

namespace Surroundings

variable {s : Surroundings} {files : FileTree} {name address version hash : String}
  {d : Dependency}

/-- The checkouts of a package stand in the cache, under its name if it has one. -/
theorem parts_checkoutsOf (s : Surroundings) (name : String) : Path.parts (s.checkoutsOf name) =
    Path.parts s.cache ++ ["pkg", "src"] ++
      if Text.packageName name = "" then [] else [Text.packageName name] := by
  have habove : Path.parts (Path.join (Path.join s.cache "pkg") "src") =
      Path.parts s.cache ++ ["pkg", "src"] := by
    rw [Path.parts_join _ (by decide), Path.parts_join _ (by decide), List.append_assoc]
    rfl
  unfold checkoutsOf
  split
  · next hempty => rw [hempty, Path.parts_join_empty, habove, List.append_nil]
  · next hname => rw [Path.parts_join _ (Text.isPlain_packageName hname), habove]

/-- The last part of that directory is a name. -/
theorem exists_parts_checkoutsOf (s : Surroundings) (name : String) :
    ∃ front last, Path.parts (s.checkoutsOf name) = front ++ [last] ∧ Path.IsPlain last := by
  rw [parts_checkoutsOf]
  split
  · exact ⟨Path.parts s.cache ++ ["pkg"], "src", by simp, by decide⟩
  · next hname => exact ⟨_, _, rfl, Text.isPlain_packageName hname⟩

theorem checkoutsOf_ne_empty (s : Surroundings) (name : String) : s.checkoutsOf name ≠ "" := by
  intro hempty
  obtain ⟨front, last, hparts, -⟩ := s.exists_parts_checkoutsOf name
  rw [hempty] at hparts
  exact List.append_ne_nil_of_right_ne_nil front (List.cons_ne_nil last []) hparts.symm

theorem parts_checkoutDirectory_here (h : Text.trim version = ".") :
    Path.parts (s.checkoutDirectory name version) = Path.parts (s.checkoutsOf name) := by
  have hsegment : Text.pathSegment version = "." := (@Text.pathSegment_eq_dots_iff _ "." 0 rfl).mpr h
  rw [checkoutDirectory, hsegment,
    Path.parts_join_noSlash (s.checkoutsOf_ne_empty name) (by decide) (by decide)]
  simp [Path.addPart]

theorem parts_checkoutDirectory_up (h : Text.trim version = "..") :
    Path.parts (s.checkoutDirectory name version) = (Path.parts (s.checkoutsOf name)).dropLast := by
  have hsegment : Text.pathSegment version = ".." := (@Text.pathSegment_eq_dots_iff _ ".." 1 rfl).mpr h
  obtain ⟨front, last, hparts, hlast⟩ := s.exists_parts_checkoutsOf name
  rw [checkoutDirectory, hsegment,
    Path.parts_join_noSlash (s.checkoutsOf_ne_empty name) (by decide) (by decide), hparts]
  simp [Path.addPart, hlast.ne_up]

/-! ### Fetched versions -/

/-- What was made for the checkouts of a package is there. -/
theorem exists?_of_makeDirectories {made : FileTree} {path : String}
    (hmade : files.makeDirectories (s.checkoutsOf name) = .ok made)
    (hpath : Path.parts path <+: Path.parts (s.checkoutsOf name)) : made.exists? path = true := by
  refine Bool.not_eq_false _ |>.mp fun hnot => ?_
  have hnone := FileTree.at?_eq_none_of_exists? hnot
  rw [FileTree.makeDirectories_eq_ok hmade, FileTree.at?_insertDirectories] at hnone
  split at hnone
  · cases hnone
  · next hthere => exact hthere ⟨hnone, hpath⟩

/-- A version that was fetched is the revision as it was given, or the pinned version of a commit, and
then there was no directory of the revision. -/
theorem version_of_fetch (h : (s.fetch files name address d).1 = .ok (version, hash)) :
    version = Text.trim d.rev ∨ ∃ made, files.makeDirectories (s.checkoutsOf name) = .ok made ∧
      (Text.trim d.rev ≠ "" → made.exists? (s.checkoutDirectory name (Text.trim d.rev)) = false) ∧
      ∃ clone descriptor revision, s.repositories.clone made address = .ok clone ∧
        clone.resolve revision = .ok hash ∧ version = pinnedVersion descriptor hash := by
  unfold fetch at h
  split at h
  · cases h
  · next made hmade =>
      split at h
      · cases h
      · next pin hpin =>
          dsimp only at h
          split at h
          · exact .inl (Prod.mk.inj (Except.ok.inj h)).1.symm
          · next hnot =>
              split at h
              · cases h
              · next clone hclone =>
                  split at h
                  · cases h
                  · next found hfound =>
                      refine .inr ⟨made, hmade, fun hrev => by simpa [hrev] using hnot, clone,
                        pin.descriptor, pin.revision, hclone, ?_⟩
                      have hfetched : pinnedVersion pin.descriptor found = version ∧ found = hash := by
                        split at h
                        · exact Prod.mk.inj (Except.ok.inj h)
                        · split at h
                          · cases h
                          · exact Prod.mk.inj (Except.ok.inj h)
                      rw [← hfetched.2]
                      exact ⟨hfound, hfetched.1.symm⟩

/-- **Where a fetched version stands.** The name of its directory is one part of a path, without a slash.
If the revision is not made of one or two dots, the directory is one right below that of the package; with
one dot it is the directory of the package itself, and with two dots the one above. -/
theorem fetched_directory (hhashes : s.repositories.Hashed)
    (h : (s.fetch files name address d).1 = .ok (version, hash)) :
    (Text.pathSegment version ≠ "" ∧ '/' ∉ (Text.pathSegment version).toList) ∧
    (Text.trim d.rev ≠ "." ∧ Text.trim d.rev ≠ ".." →
      Path.IsPlain (Text.pathSegment version) ∧
        Path.parts (s.checkoutDirectory name version) =
          Path.parts (s.checkoutsOf name) ++ [Text.pathSegment version]) ∧
    (Text.trim d.rev = "." →
      Path.parts (s.checkoutDirectory name version) = Path.parts (s.checkoutsOf name)) ∧
    (Text.trim d.rev = ".." →
      Path.parts (s.checkoutDirectory name version) = (Path.parts (s.checkoutsOf name)).dropLast) := by
  have hown (hplain : Path.IsPlain (Text.pathSegment version)) :
      Path.IsPlain (Text.pathSegment version) ∧ Path.parts (s.checkoutDirectory name version) =
        Path.parts (s.checkoutsOf name) ++ [Text.pathSegment version] :=
    ⟨hplain, Path.parts_join _ hplain⟩
  refine ⟨⟨Text.pathSegment_ne_empty version, Text.noSlash_pathSegment version⟩, ?_⟩
  rcases version_of_fetch h with
    hversion | ⟨made, hmade, hnew, clone, descriptor, revision, hclone, hhash, hversion⟩
  · have htrim : Text.trim version = Text.trim d.rev := by rw [hversion, Text.trim_trim]
    refine ⟨fun hrev => hown (Text.isPlain_pathSegment_iff.mpr ?_),
      fun hrev => parts_checkoutDirectory_here (htrim.trans hrev),
      fun hrev => parts_checkoutDirectory_up (htrim.trans hrev)⟩
    rw [htrim]
    exact hrev
  · have hlong := le_length_pinnedVersion descriptor (hhashes hclone hhash)
    rw [← hversion] at hlong
    have hplain : Path.IsPlain (Text.pathSegment version) := by
      refine Text.isPlain_pathSegment_iff.mpr ⟨fun heq => ?_, fun heq => ?_⟩
      · rw [heq] at hlong
        exact absurd hlong (by decide)
      · rw [heq] at hlong
        exact absurd hlong (by decide)
    have htrim := Text.trim_trim d.rev
    have hthere (hrev : Text.trim d.rev ≠ "")
        (hpath : Path.parts (s.checkoutDirectory name (Text.trim d.rev)) <+:
          Path.parts (s.checkoutsOf name)) : False :=
      Bool.noConfusion ((hnew hrev).symm.trans (exists?_of_makeDirectories hmade hpath))
    refine ⟨fun _ => hown hplain, fun hrev => (hthere ?_ ?_).elim, fun hrev => (hthere ?_ ?_).elim⟩
    · rw [hrev]
      decide
    · simp only [parts_checkoutDirectory_here (htrim.trans hrev), List.prefix_refl]
    · rw [hrev]
      decide
    · simp only [parts_checkoutDirectory_up (htrim.trans hrev), List.dropLast_prefix]

def singleCommit : Repository :=
  ⟨"/repo", [⟨"0123456789abcdef0123456789abcdef01234567", [(["lib.json"], "")]⟩], [], []⟩

def oneRepository : Surroundings :=
  ⟨"/app", "/home/.moopl", "/app", Repository.reachable "/app" [singleCommit]⟩

def repositoryFiles : FileTree := ⟨[(["repo", ".git"], .directory)]⟩

/-- A revision of two dots leads out of the directory of the package. -/
theorem fetch_leaves_package :
    Dependency.issues { git := "/repo", rev := ".." } = [] ∧
    (oneRepository.fetch repositoryFiles "lib" "/repo" { git := "/repo", rev := ".." }).1 =
      .ok ("..", "..") ∧
    Text.pathSegment ".." = ".." ∧
    oneRepository.checkoutsOf "lib" = "/home/.moopl/pkg/src/lib" ∧
    oneRepository.checkoutDirectory "lib" ".." = "/home/.moopl/pkg/src" := by
  decide +kernel

theorem fetched_directory_repository :
    ((oneRepository.fetch repositoryFiles "lib" "/repo" { git := "/repo", branch := "master" }).1 =
        .ok ("master@0123456789abcdef0123456789abcdef01234567",
          "0123456789abcdef0123456789abcdef01234567") ∧
      Path.parts (oneRepository.checkoutDirectory "lib"
          "master@0123456789abcdef0123456789abcdef01234567") =
        Path.parts (oneRepository.checkoutsOf "lib") ++
          [Text.pathSegment "master@0123456789abcdef0123456789abcdef01234567"]) ∧
    (oneRepository.fetch repositoryFiles "lib" "/repo" { git := "/repo", rev := " . " }).1 =
        .ok (".", ".") ∧
      Path.parts (oneRepository.checkoutDirectory "lib" ".") =
        Path.parts (oneRepository.checkoutsOf "lib") := by
  have hhashes : oneRepository.repositories.Hashed := by
    refine Repository.hashed_reachable (fun r hr => ?_) "/app"
    obtain rfl := List.mem_singleton.mp hr
    refine ⟨fun c hc => ?_, nofun, nofun⟩
    obtain rfl := List.mem_singleton.mp hc
    decide +kernel
  have hbranch : (oneRepository.fetch repositoryFiles "lib" "/repo"
      { git := "/repo", branch := "master" }).1 =
        .ok ("master@0123456789abcdef0123456789abcdef01234567",
          "0123456789abcdef0123456789abcdef01234567") := by decide +kernel
  have hdot : (oneRepository.fetch repositoryFiles "lib" "/repo" { git := "/repo", rev := " . " }).1 =
      .ok (".", ".") := by decide +kernel
  exact ⟨⟨hbranch, ((fetched_directory hhashes hbranch).2.1 (by decide +kernel)).2⟩, hdot,
    (fetched_directory hhashes hdot).2.2.1 (by decide +kernel)⟩

end Surroundings

end ObjectLang
