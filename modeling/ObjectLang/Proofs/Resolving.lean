import ObjectLang.Package.Install
import ObjectLang.Package.Repository
import ObjectLang.Proofs.FileTrees
import ObjectLang.Proofs.Loading
import ObjectLang.Proofs.NormalTexts
import ObjectLang.Proofs.Paths

/-! What the resolution of one dependency does: the package has the normal form of the name, its
directory has the manifest that is returned, and the files that are there afterwards add those of new
checkouts, whose manifests are among the ones at hand. -/

namespace ObjectLang

/-- The dependencies that the manifest of a resolved package declares. -/
def ResolvedPackage.needed (r : ResolvedPackage) : List (String × Dependency) :=
  (r.manifest.map (·.dependencies)).getD []

theorem ResolvedPackage.mem_needed {r : ResolvedPackage} {wanted : String × Dependency}
    (h : wanted ∈ r.needed) : ∃ m, r.manifest = some m ∧ wanted ∈ m.dependencies := by
  unfold ResolvedPackage.needed at h
  cases hm : r.manifest with
  | none => simp [hm] at h
  | some m => exact ⟨m, rfl, by simpa [hm] using h⟩

namespace Manifest

theorem validated_eq_ok {m m' : Manifest} (h : m.validated = .ok m') : m' = m := by
  unfold validated at h
  split at h
  · cases h
    rfl
  · cases h

theorem validated_path {m m' : Manifest} (h : m.validated = .ok m') (path : String) :
    ({ m with path := path }).validated = .ok { m' with path := path } := by
  obtain rfl := validated_eq_ok h
  unfold validated at h ⊢
  split at h
  · next hissues => exact if_pos hissues
  · cases h

/-- What a text says does not depend on where it stands. -/
theorem parse_path {path text : String} {m : Manifest} (h : parse path text = .ok m)
    (other : String) : parse other text = .ok { m with path := other } := by
  unfold parse at h ⊢
  split at h
  · cases h
  · cases h
  · exact validated_path h other
  · exact validated_path h other

theorem declaredNames_of_parse {path text : String} {m : Manifest} (h : parse path text = .ok m) :
    Install.declaredNames text = m.dependencies.map fun d => Text.packageName d.1 := by
  rw [Install.declaredNames, parse_path h ""]

theorem read_eq_ok_iff {tree : FileTree} {cwd path : String} {m : Manifest} (hne : path ≠ "")
    (hplace : Path.absolute cwd path = path) :
    read tree cwd path = .ok m ↔
      ∃ text, tree.at? (Path.parts path) = some (.file text) ∧ parse path text = .ok m := by
  simp only [read, if_neg hne, hplace, FileTree.open?, FileTree.find]
  cases tree.at? (Path.parts path) with
  | none => exact ⟨nofun, nofun⟩
  | some e =>
      cases e with
      | file text =>
          constructor
          · exact fun h => ⟨text, rfl, h⟩
          · rintro ⟨_, hfile, h⟩
            cases hfile
            exact h
      | directory => exact ⟨nofun, nofun⟩

end Manifest

/-- The files of some commit that can be checked out. -/
def Repositories.Brings (r : Repositories) (content : List (List String × String)) : Prop :=
  ∃ files address clone hash, r.clone files address = .ok clone ∧ clone.checkout hash = .ok content

/-- What is relied on: a checkout brings nothing but files below its directory, and the manifests among
them are listed. -/
structure Repositories.Lawful (r : Repositories) : Prop where
  below : ∀ {content}, r.Brings content → ∀ f ∈ content, f.1 ≠ []
  listed : ∀ {content}, r.Brings content → ∀ f ∈ content,
    f.1.getLast? = some Manifest.fileName → f.2 ∈ r.manifests

namespace Repository

theorem mem_of_at? {files : FileTree} {repositories : List Repository} {cwd address : String}
    {r : Repository} (h : at? files repositories cwd address = some r) : r ∈ repositories := by
  obtain ⟨place, -, hplace⟩ := List.exists_of_findSome?_eq_some h
  split at hplace
  · exact List.mem_of_find?_eq_some hplace
  · cases hplace

theorem reachable_eq_ok {repositories : List Repository} {cwd address : String} {files : FileTree}
    {clone : Clone} (h : (reachable cwd repositories).clone files address = .ok clone) :
    ∃ r ∈ repositories, clone = r.clone := by
  cases hat : at? files repositories cwd address with
  | none => simp [reachable, hat] at h
  | some r =>
      refine ⟨r, mem_of_at? hat, ?_⟩
      simpa [reachable, hat] using h.symm

/-- What a file of a commit is a part of. -/
theorem exists_of_mem_content {r : Repository} {hash : String} {f : List String × String}
    (h : f ∈ r.content hash) : ∃ c ∈ r.history, f ∈ c.files := by
  unfold content at h
  cases hfind : r.history.find? fun c => decide (c.hash = hash) with
  | none => simp [hfind] at h
  | some c => exact ⟨c, List.mem_of_find?_eq_some hfind, by simpa [hfind] using h⟩

/-- Repositories whose commits have nothing but files below their directories are lawful. -/
theorem lawful_reachable {repositories : List Repository}
    (h : ∀ r ∈ repositories, ∀ c ∈ r.history, ∀ f ∈ c.files, f.1 ≠ []) (cwd : String) :
    (reachable cwd repositories).Lawful := by
  have hmem : ∀ {content}, (reachable cwd repositories).Brings content → ∀ f ∈ content,
      ∃ r ∈ repositories, ∃ c ∈ r.history, f ∈ c.files := by
    rintro content ⟨files, address, clone, hash, hclone, hcheckout⟩ f hf
    obtain ⟨r, hr, rfl⟩ := reachable_eq_ok hclone
    cases hcheckout
    exact ⟨r, hr, exists_of_mem_content hf⟩
  refine ⟨fun hbrings f hf => ?_, fun hbrings f hf hlast => ?_⟩
  · obtain ⟨r, hr, c, hc, hfile⟩ := hmem hbrings f hf
    exact h r hr c hc f hfile
  · obtain ⟨r, hr, c, hc, hfile⟩ := hmem hbrings f hf
    refine List.mem_flatMap.mpr ⟨r, hr, List.mem_flatMap.mpr ⟨c, hc, ?_⟩⟩
    exact List.mem_filterMap.mpr ⟨f, hfile, if_pos hlast⟩

end Repository

namespace Surroundings

variable {s : Surroundings} {files : FileTree} {directory : String}

/-- The manifest of a directory is the one in the file of that name. -/
theorem manifestIn_eq_some_iff (hdirectory : Path.isAbsolute directory = true) {m : Manifest} :
    s.manifestIn files directory = .ok (some m) ↔ ∃ text,
      files.at? (Path.parts directory ++ [Manifest.fileName]) = some (.file text) ∧
      Manifest.parse (Path.join directory Manifest.fileName) text = .ok m := by
  have hplain : Path.IsPlain Manifest.fileName := by decide
  have hparts := Path.parts_join directory hplain
  have hread : Manifest.read files s.cwd (Path.join directory Manifest.fileName) = .ok m ↔ _ :=
    Manifest.read_eq_ok_iff (Path.ne_empty_of_isAbsolute (Path.isAbsolute_join hdirectory _))
      (Path.absolute_join hdirectory hplain s.cwd)
  rw [hparts] at hread
  rw [← hread]
  unfold manifestIn
  simp only [FileTree.stat, FileTree.find, hparts] at hread ⊢
  cases hfile : files.at? (Path.parts directory ++ [Manifest.fileName]) with
  | none =>
      rw [hfile] at hread
      constructor
      · intro h
        dsimp only [Except.mapError] at h
        split at h <;> cases h
      · exact fun h => absurd (hread.mp h).choose_spec.1 nofun
  | some e =>
      dsimp only [Except.mapError]
      cases Manifest.read files s.cwd (Path.join directory Manifest.fileName) with
      | error cause => exact ⟨nofun, nofun⟩
      | ok found => simp [Except.map]

/-- A manifest at hand stays the manifest of its directory, and no other one comes to be. -/
theorem manifestIn_eq_some_of_adds {old new : FileTree} (h : FileTree.Adds old new)
    (hdirectory : Path.isAbsolute directory = true)
    (hthere : old.at? (Path.parts directory) ≠ none) {m : Manifest} :
    s.manifestIn new directory = .ok (some m) ↔ s.manifestIn old directory = .ok (some m) := by
  rw [manifestIn_eq_some_iff hdirectory, manifestIn_eq_some_iff hdirectory]
  refine exists_congr fun text => and_congr_left fun _ => h.file_iff ?_
  rwa [List.dropLast_concat]

/-- Surroundings as they can be: the working directory and the cache are given by absolute paths, and
the repositories are lawful. -/
structure WellFormed (s : Surroundings) : Prop where
  cwd : Path.isAbsolute s.cwd = true
  cache : Path.isAbsolute s.cache = true
  repositories : s.repositories.Lawful

theorem WellFormed.isAbsolute_checkoutDirectory (hs : s.WellFormed) (name version : String) :
    Path.isAbsolute (s.checkoutDirectory name version) = true :=
  Path.isAbsolute_join (Path.isAbsolute_join (Path.isAbsolute_join
    (Path.isAbsolute_join hs.cache _) _) _) _

/-- A checkout into a new directory adds to the files. -/
theorem adds_checkout (hnew : files.at? (Path.parts directory) = none)
    {content : List (List String × String)} (hcontent : ∀ f ∈ content, f.1 ≠ []) :
    FileTree.Adds files (checkout files directory content) := by
  have hfold : ∀ (content : List (List String × String)) (tree : FileTree),
      (∀ f ∈ content, f.1 ≠ []) → FileTree.Adds files tree →
      FileTree.Adds files (content.foldl (fun files f =>
        (files.insertDirectories (Path.parts directory ++ f.1.dropLast)).insert
          (Path.parts directory ++ f.1) (.file f.2)) tree) := by
    intro content
    induction content with
    | nil => exact fun _ _ h => h
    | cons f content ih =>
        intro tree hcontent h
        obtain ⟨hf, hcontent⟩ := List.forall_mem_cons.mp hcontent
        refine ih _ hcontent ((h.insertDirectories _).insert ?_ f.2)
        rw [List.dropLast_append_of_ne_nil hf]
        exact FileTree.at?_eq_none_below (List.prefix_append _ _) hnew
  exact hfold content _ hcontent ((FileTree.Adds.refl files).insertDirectories _)

/-- What a fetch does to the files: nothing, or it lists directories, or it also checks out a commit
into a new directory. -/
theorem fetch_files (s : Surroundings) (files : FileTree) (name address : String) (d : Dependency) :
    (s.fetch files name address d).2 = files ∨ ∃ made, made =
      files.insertDirectories (Path.parts (s.checkoutsOf name)) ∧
      ((s.fetch files name address d).2 = made ∨ ∃ version content, s.repositories.Brings content ∧
        made.at? (Path.parts (s.checkoutDirectory name version)) = none ∧
        (s.fetch files name address d).2 =
          checkout made (s.checkoutDirectory name version) content) := by
  unfold fetch
  split
  · exact .inl rfl
  · next made hmade =>
      refine .inr ⟨made, FileTree.makeDirectories_eq_ok hmade, ?_⟩
      split
      · exact .inl rfl
      · dsimp only
        split
        · exact .inl rfl
        · split
          · exact .inl rfl
          · next clone hclone =>
              split
              · exact .inl rfl
              · next hash hhash =>
                  split
                  · exact .inl rfl
                  · next hnew =>
                      split
                      · exact .inl rfl
                      · next content hcontent =>
                          exact .inr ⟨_, content, ⟨made, address, clone, hash, hclone, hcontent⟩,
                            FileTree.at?_eq_none_of_exists? (by simpa using hnew), rfl⟩

theorem resolve_files (s : Surroundings) (files : FileTree) (name : String) (d : Dependency)
    (base : String) : (s.resolve files name d base).2 = files ∨
      (s.resolve files name d base).2 = (s.fetch files name (Text.trim d.git) d).2 := by
  unfold resolve
  split
  · exact .inl rfl
  · split
    · unfold resolveGit
      dsimp only
      split
      · exact .inl rfl
      · split
        · next heq => exact .inr (by rw [heq])
        · next heq => exact .inr (by rw [heq])
    · exact .inl rfl

/-- Resolving only adds to the files, since a commit has nothing but files below its directory. -/
theorem adds_resolve (hlawful : s.repositories.Lawful) (files : FileTree) (name : String)
    (d : Dependency) (base : String) : FileTree.Adds files (s.resolve files name d base).2 := by
  rcases s.resolve_files files name d base with heq | heq
  · rw [heq]
    exact .refl files
  · rw [heq]
    rcases s.fetch_files files name (Text.trim d.git) d with heq | ⟨made, hmade, hfetched⟩
    · rw [heq]
      exact .refl files
    · have hadds : FileTree.Adds files made := by
        rw [hmade]
        exact (FileTree.Adds.refl files).insertDirectories _
      rcases hfetched with heq | ⟨version, content, hbrings, hnew, heq⟩
      · rw [heq]
        exact hadds
      · rw [heq]
        exact hadds.trans (adds_checkout hnew (hlawful.below hbrings))

theorem WellFormed.adds_resolve (hs : s.WellFormed) (files : FileTree) (name : String)
    (d : Dependency) (base : String) : FileTree.Adds files (s.resolve files name d base).2 :=
  Surroundings.adds_resolve hs.repositories files name d base

/-- The manifests of a tree declare no other names than the given ones. -/
def DeclareOnly (known : List String) (files : FileTree) : Prop :=
  ∀ parts text, (parts, Entry.file text) ∈ files.entries →
    parts.getLast? = some Manifest.fileName → Install.declaredNames text ⊆ known

/-- The manifests in the commits of the repositories declare no other names than the given ones. -/
def CommitsDeclareOnly (s : Surroundings) (known : List String) : Prop :=
  ∀ text ∈ s.repositories.manifests, Install.declaredNames text ⊆ known

theorem declareOnly_insertDirectories {known : List String} (h : DeclareOnly known files)
    (ps : List String) : DeclareOnly known (files.insertDirectories ps) := by
  obtain ⟨listed, hentries, hlisted⟩ := files.entries_insertDirectories ps
  intro parts text hmem
  rw [hentries, List.mem_append] at hmem
  rcases hmem with hmem | hmem
  · cases hlisted _ hmem
  · exact h parts text hmem

theorem declareOnly_insert {known : List String} (h : DeclareOnly known files)
    {parts : List String} {text : String}
    (hnew : parts.getLast? = some Manifest.fileName → Install.declaredNames text ⊆ known) :
    DeclareOnly known (files.insert parts (.file text)) := by
  intro parts' text' hmem
  rcases List.mem_cons.mp hmem with heq | hmem
  · cases heq
    exact hnew
  · exact h parts' text' (List.mem_of_mem_filter hmem)

theorem declareOnly_checkout {known : List String} (h : DeclareOnly known files)
    (directory : String) {content : List (List String × String)}
    (hcontent : ∀ f ∈ content, f.1 ≠ [] ∧
      (f.1.getLast? = some Manifest.fileName → Install.declaredNames f.2 ⊆ known)) :
    DeclareOnly known (checkout files directory content) := by
  unfold checkout
  generalize hmade : files.insertDirectories _ = made
  have hmade' : DeclareOnly known made := hmade ▸ declareOnly_insertDirectories h _
  clear hmade
  induction content generalizing made with
  | nil => exact hmade'
  | cons f content ih =>
      obtain ⟨⟨hne, hf⟩, hcontent⟩ := List.forall_mem_cons.mp hcontent
      refine ih hcontent _ (declareOnly_insert (declareOnly_insertDirectories hmade' _) ?_)
      rwa [List.getLast?_append_of_ne_nil _ hne]

theorem WellFormed.declareOnly_resolve (hs : s.WellFormed) {known : List String}
    (hcommits : s.CommitsDeclareOnly known) (h : DeclareOnly known files) (name : String)
    (d : Dependency) (base : String) : DeclareOnly known (s.resolve files name d base).2 := by
  rcases s.resolve_files files name d base with heq | heq
  · rw [heq]
    exact h
  · rw [heq]
    rcases s.fetch_files files name (Text.trim d.git) d with heq | ⟨made, hmade, hfetched⟩
    · rw [heq]
      exact h
    · have hdirectories : DeclareOnly known made := hmade ▸ declareOnly_insertDirectories h _
      rcases hfetched with heq | ⟨version, content, hbrings, -, heq⟩
      · rw [heq]
        exact hdirectories
      · rw [heq]
        exact declareOnly_checkout hdirectories _ fun f hf => ⟨hs.repositories.below hbrings f hf,
          fun hlast => hcommits _ (hs.repositories.listed hbrings f hf hlast)⟩

section KnownNames

variable (s : Surroundings) (files : FileTree) (m : Manifest)

theorem mem_knownNames_of_mem {name : String} {d : Dependency} (h : (name, d) ∈ m.dependencies) :
    Text.packageName name ∈ Install.knownNames s files m := by
  rw [Install.knownNames, List.mem_eraseDups]
  exact List.mem_append_left _ (List.mem_map.mpr ⟨(name, d), h, rfl⟩)

theorem declareOnly_knownNames : DeclareOnly (Install.knownNames s files m) files := by
  intro parts text hmem hlast key hkey
  rw [Install.knownNames, List.mem_eraseDups]
  refine List.mem_append_right _ (List.mem_flatMap.mpr ⟨text, List.mem_append_left _ ?_, hkey⟩)
  exact List.mem_filterMap.mpr ⟨(parts, .file text), hmem, if_pos hlast⟩

theorem commitsDeclareOnly_knownNames : s.CommitsDeclareOnly (Install.knownNames s files m) := by
  intro text htext key hkey
  rw [Install.knownNames, List.mem_eraseDups]
  exact List.mem_append_right _
    (List.mem_flatMap.mpr ⟨text, List.mem_append_right _ htext, hkey⟩)

end KnownNames

/-! ### Located packages -/

/-- A dependency is resolved to a package whose directory holds a library. -/
structure Locates (s : Surroundings) (files : FileTree) (name : String) (d : Dependency)
    (base : String) (r : ResolvedPackage) (after : FileTree) : Prop where
  resolve : s.resolve files name d base = (.ok r, after)
  library : (Library.find? after r.package.directory).isSome = true

theorem resolvePath_eq_ok {name base : String} {d : Dependency} {r : ResolvedPackage}
    (h : s.resolvePath files name d base = .ok r) :
    ∃ path, path = Path.absolute s.cwd (if Path.isAbsolute d.path then d.path
        else Path.join base d.path) ∧
      files.at? (Path.parts path) = some .directory ∧ s.manifestIn files path = .ok r.manifest ∧
      ∃ version, Text.trim version = version ∧ r.package = ⟨Text.packageName name, version,
        "path:" ++ path, Checksum.ofDirectory files path, path⟩ := by
  obtain ⟨entry, hstat, h⟩ := ok_of_bind h
  cases entry with
  | file text => cases h
  | directory =>
      obtain ⟨manifest, hmanifest, h⟩ := ok_of_bind h
      cases h
      refine ⟨_, rfl, FileTree.stat_eq_ok_iff.mp (ok_of_mapError hstat), hmanifest, _, ?_, rfl⟩
      split
      · rfl
      · exact Text.trim_trim _

theorem resolveGit_eq_ok {name : String} {d : Dependency} {r : ResolvedPackage} {after : FileTree}
    (h : s.resolveGit files name d = (.ok r, after)) : ∃ version place,
      s.manifestIn after (s.checkoutDirectory name version) = .ok r.manifest ∧
      r.package = ⟨Text.packageName name, version, "git+" ++ place,
        Checksum.ofDirectory after (s.checkoutDirectory name version),
        s.checkoutDirectory name version⟩ := by
  unfold resolveGit at h
  dsimp only at h
  split at h
  · cases h
  · split at h
    · cases h
    · next version hash fetched _ =>
        obtain ⟨hresult, rfl⟩ := Prod.mk.inj h
        cases hmanifest : s.manifestIn fetched (s.checkoutDirectory name version) with
        | error e =>
            rw [hmanifest] at hresult
            cases hresult
        | ok manifest =>
            rw [hmanifest] at hresult
            cases hresult
            exact ⟨version, Text.trim d.git ++ "@" ++ hash, hmanifest, by
              simp only [String.append_assoc]⟩

namespace Locates

variable {name base : String} {d : Dependency} {r : ResolvedPackage} {after : FileTree}

theorem package_name (h : s.Locates files name d base r after) :
    r.package.name = Text.packageName name := by
  have hresolve := h.resolve
  unfold Surroundings.resolve at hresolve
  split at hresolve
  · obtain ⟨_, -, -, -, _, -, hpackage⟩ := resolvePath_eq_ok (Prod.mk.inj hresolve).1
    rw [hpackage]
  · split at hresolve
    · obtain ⟨_, _, -, hpackage⟩ := resolveGit_eq_ok hresolve
      rw [hpackage]
    · cases hresolve

/-- What is located has the name, an absolute directory and the manifest in it. -/
theorem package (hs : s.WellFormed) (h : s.Locates files name d base r after) :
    r.package.name = Text.packageName name ∧ Path.isAbsolute r.package.directory = true ∧
      s.manifestIn after r.package.directory = .ok r.manifest := by
  have hresolve := h.resolve
  unfold Surroundings.resolve at hresolve
  split at hresolve
  · obtain ⟨hpath, rfl⟩ := Prod.mk.inj hresolve
    obtain ⟨path, hpath, -, hmanifest, version, -, hpackage⟩ := resolvePath_eq_ok hpath
    rw [hpackage]
    exact ⟨rfl, hpath ▸ Path.isAbsolute_absolute hs.cwd _, hmanifest⟩
  · split at hresolve
    · obtain ⟨version, place, hmanifest, hpackage⟩ := resolveGit_eq_ok hresolve
      rw [hpackage]
      exact ⟨rfl, hs.isAbsolute_checkoutDirectory name version, hmanifest⟩
    · cases hresolve

theorem name_eq (hs : s.WellFormed) (h : s.Locates files name d base r after) :
    r.package.name = Text.packageName name := (h.package hs).1

theorem isAbsolute (hs : s.WellFormed) (h : s.Locates files name d base r after) :
    Path.isAbsolute r.package.directory = true := (h.package hs).2.1

theorem manifest (hs : s.WellFormed) (h : s.Locates files name d base r after) :
    s.manifestIn after r.package.directory = .ok r.manifest := (h.package hs).2.2

theorem after_eq (h : s.Locates files name d base r after) :
    after = (s.resolve files name d base).2 := by
  rw [h.resolve]

theorem adds (hs : s.WellFormed) (h : s.Locates files name d base r after) :
    FileTree.Adds files after := by
  rw [h.after_eq]
  exact hs.adds_resolve files name d base

/-- The directory is there, since the library is in it. -/
theorem at?_ne_none (h : s.Locates files name d base r after) :
    after.at? (Path.parts r.package.directory) ≠ none := by
  intro hnone
  obtain ⟨file, hfile⟩ := Option.isSome_iff_exists.mp h.library
  obtain ⟨library, hlibrary, rfl⟩ := List.mem_map.mp (List.mem_of_find?_eq_some hfile)
  have hplain : ∀ library ∈ Library.fileNames, Path.IsPlain library := by decide
  have hisFile := List.find?_some hfile
  unfold FileTree.isFile FileTree.find at hisFile
  rw [Path.parts_join _ (hplain library hlibrary)] at hisFile
  simp [FileTree.at?_eq_none_below (List.prefix_append _ [library]) hnone] at hisFile

/-- The names that a located package needs are among those that the manifests at hand declare. -/
theorem needed_subset (hs : s.WellFormed) (h : s.Locates files name d base r after)
    {known : List String} (hknown : DeclareOnly known after) :
    ∀ child ∈ r.needed, Text.packageName child.1 ∈ known := by
  intro child hchild
  obtain ⟨m, hm, hmem⟩ := ResolvedPackage.mem_needed hchild
  have hmanifest := h.manifest hs
  rw [hm] at hmanifest
  obtain ⟨text, hfile, hparse⟩ := (manifestIn_eq_some_iff (h.isAbsolute hs)).mp hmanifest
  refine hknown _ text (FileTree.mem_entries_of_at?_file hfile) (by simp) ?_
  rw [Manifest.declaredNames_of_parse hparse]
  exact List.mem_map_of_mem hmem

end Locates

end Surroundings

end ObjectLang
