import ObjectLang.CommandLine.Tool
import ObjectLang.Proofs.Decoding

/-! Programs that were loaded from files. What is read from a file was decoded from a document, so
nothing is missing in it; neither is in what an entry program and its libraries are linked to. -/

namespace ObjectLang

section Results

variable {ε δ α β : Type}

theorem ok_of_bind {r : Except ε α} {next : α → Except ε β} {b : β} (h : r >>= next = .ok b) :
    ∃ a, r = .ok a ∧ next a = .ok b := by
  cases r with
  | error e => cases h
  | ok a => exact ⟨a, rfl, h⟩

theorem ok_of_mapError {r : Except ε α} {wrap : ε → δ} {a : α} (h : r.mapError wrap = .ok a) :
    r = .ok a := by
  cases r with
  | error e => cases h
  | ok b =>
      cases h
      rfl

theorem error_of_bind {r : Except ε α} {next : α → Except ε β} {e : ε}
    (h : r >>= next = .error e) : r = .error e ∨ ∃ a, r = .ok a ∧ next a = .error e := by
  cases r with
  | error e' =>
      cases h
      exact .inl rfl
  | ok a => exact .inr ⟨a, rfl, h⟩

theorem error_of_mapError {r : Except ε α} {wrap : ε → δ} {e : δ}
    (h : r.mapError wrap = .error e) : ∃ e', r = .error e' ∧ e = wrap e' := by
  cases r with
  | error e' =>
      cases h
      exact ⟨e', rfl, rfl⟩
  | ok a => cases h

theorem error_of_map {r : Except ε α} {f : α → β} {e : ε} (h : r.map f = .error e) :
    r = .error e := by
  cases r with
  | error e' =>
      cases h
      rfl
  | ok a => cases h

theorem ok_of_mapM {f : α → Except ε β} {xs : List α} {ys : List β} (h : xs.mapM f = .ok ys) :
    ∀ y ∈ ys, ∃ x ∈ xs, f x = .ok y := by
  induction xs generalizing ys with
  | nil =>
      cases h
      exact nofun
  | cons x xs ih =>
      rw [List.mapM_cons] at h
      obtain ⟨head, hhead, h⟩ := ok_of_bind h
      obtain ⟨tail, htail, h⟩ := ok_of_bind h
      cases h
      refine List.forall_mem_cons.mpr ⟨⟨x, List.mem_cons_self, hhead⟩, fun y hy => ?_⟩
      obtain ⟨source, hsource, hf⟩ := ih htail y hy
      exact ⟨source, List.mem_cons_of_mem _ hsource, hf⟩

end Results

section Loaded

variable {A : Annotations} (hA : A.Optional)
include hA

theorem Program.complete_of_read {tree : FileTree} {path : String} {p : Program}
    (h : Program.read tree path = .ok p) : p.Complete A := by
  obtain ⟨text, -, hparse⟩ := ok_of_bind h
  obtain ⟨fields?, -, hdecode⟩ := ok_of_bind hparse
  cases fields? with
  | none => cases hdecode
  | some fields => exact Program.complete_of_ofFields hA (ok_of_mapError hdecode)

namespace Bundle

theorem complete_of_readLibrary {tree : FileTree} {place : LibraryPath} {library : BundledProgram}
    (h : readLibrary tree place = .ok library) : library.program.Complete A := by
  unfold readLibrary at h
  split at h
  · cases h
  · obtain ⟨program, hread, h⟩ := ok_of_bind h
    split at h
    · cases h
      exact Program.complete_of_read hA (ok_of_mapError hread)
    · cases h

omit hA in
theorem complete_link {b : Bundle} (hentry : b.entry.program.Complete A)
    (hlibraries : ∀ library ∈ b.libraries, library.program.Complete A) : b.link.Complete A := by
  have hlisting {α : Type} (xs : List α) : Listing (!xs.isEmpty) xs := by
    intro hlisted
    rwa [Bool.not_eq_false', List.isEmpty_iff] at hlisted
  refine ⟨hlisting _, ?_, hlisting _, ?_, hentry.commandsListed, hentry.commands⟩
  · refine List.forall_mem_append.mpr ⟨fun r hr => ?_, hentry.routines⟩
    obtain ⟨library, hlibrary, hr⟩ := List.mem_flatMap.mp hr
    exact (hlibraries library hlibrary).routines r hr
  · refine List.forall_mem_append.mpr ⟨fun c hc => ?_, hentry.classes⟩
    obtain ⟨library, hlibrary, hc⟩ := List.mem_flatMap.mp hc
    exact (hlibraries library hlibrary).classes c hc

theorem complete_of_load {tree : FileTree} {cwd : String} {paths : List LibraryPath} {entry : String}
    {b : Bundle} (h : load tree cwd paths entry = .ok b) : b.link.Complete A := by
  obtain ⟨program, hread, h⟩ := ok_of_bind h
  obtain ⟨libraries, hlibraries, h⟩ := ok_of_bind h
  cases h
  refine complete_link (Program.complete_of_read hA (ok_of_mapError hread)) fun library hlibrary => ?_
  obtain ⟨place, -, hplace⟩ := ok_of_mapM hlibraries library hlibrary
  exact complete_of_readLibrary hA (ok_of_mapError hplace)

end Bundle

end Loaded

namespace CommandLine.World

/-- The program that the tool puts together is that of a bundle. -/
theorem link_of_program {w : World} {entry : String} {m : Option Manifest} {p : Program}
    (h : w.program entry m = .ok p) :
    ∃ paths b, Bundle.load w.files w.directory paths entry = .ok b ∧ p = b.link := by
  obtain ⟨lock, hlock⟩ : ∃ lock : Option Lockfile,
      ((Bundle.load w.files w.directory (libraryPaths lock) entry).mapError .unloaded >>=
        fun bundle => .ok bundle.link) = (.ok p : Except ProjectError Program) := by
    cases m with
    | none => exact ⟨none, h⟩
    | some m =>
        obtain ⟨lock, -, hlock⟩ := ok_of_bind h
        exact ⟨lock, hlock⟩
  obtain ⟨b, hload, hlink⟩ := ok_of_bind hlock
  cases hlink
  exact ⟨libraryPaths lock, b, ok_of_mapError hload, rfl⟩

end CommandLine.World

end ObjectLang
