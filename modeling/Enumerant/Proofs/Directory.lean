import Enumerant.Directory
import Enumerant.Proofs.Text.Decoding
import Enumerant.Proofs.Text.Part

/-!
# Reading what was written

A file is read and written where its path leads to: `Leads` says that this is a name in a folder.
Writing a file makes no other way and bars none in that folder (`Leads.withFile`), so what is
written to a path is what is read there (`Leads.read_withFile`), and a path with something put
behind it leads to the same folder (`Leads.append`). In other folders no way is barred either: what
a file lies in is a folder before the file is written (`Leads.withFile_of_leads`).
-/

namespace Enumerant

namespace Directory

variable {d d' : Directory} {path path' name name' suffix : String}
  {folder folder' place p : List String}
  {contents : ByteArray} {files : List (String × ByteArray)}

/-! ### Names -/

/-- No name in a path holds a slash. -/
theorem slash_not_mem_of_mem_names (h : name ∈ names path) : '/' ∉ name.toList := by
  obtain ⟨f, hf, rfl⟩ := List.mem_map.mp h
  rw [String.toList_ofList]
  intro hslash
  have := Text.not_separates_of_mem_fields (List.mem_of_mem_filter hf) hslash
  simp at this

/-- What is put behind a path belongs to its last name. -/
theorem exists_names_append (hne : path ≠ "") (hslash : endsInSlash path = false)
    (hsuffix : '/' ∉ suffix.toList) :
    ∃ init name, names path = init ++ [name] ∧
      names (path ++ suffix) = init ++ [name ++ suffix] := by
  have hnil : path.toList ≠ [] := by simpa using hne
  obtain ⟨cs, c, hcs⟩ : ∃ cs c, path.toList = cs ++ [c] :=
    ⟨_, _, (List.dropLast_concat_getLast hnil).symm⟩
  have hc : (c == '/') = false := by
    simpa [endsInSlash, hcs] using hslash
  -- The last character is no slash, so the last field is a name, with and without the suffix.
  obtain ⟨init, last, h⟩ := Text.exists_fields_append (· == '/') cs
  have hpath := h [c] (by simpa using hc)
  have hboth := h (c :: suffix.toList) (by
    refine List.forall_mem_cons.mpr ⟨hc, fun b hb => ?_⟩
    rw [beq_eq_false_iff_ne]
    rintro rfl
    exact hsuffix hb)
  refine ⟨(init.filter (· ≠ [])).map String.ofList, String.ofList (last ++ [c]), ?_, ?_⟩
  · simp [names, hcs, hpath]
  · simp [names, hcs, hboth, ← String.toList_inj]

/-- An absolute path stays one when it is made longer. -/
theorem start_append (hne : path ≠ "") : start (path ++ suffix) = start path := by
  have hnil : path.toList ≠ [] := by simpa using hne
  simp only [start, String.toList_append, List.head?_append_of_ne_nil _ hnil]

theorem slash_not_mem_of_mem_start (h : name ∈ start path) : '/' ∉ name.toList := by
  rw [start] at h
  split at h
  · obtain rfl := List.mem_singleton.mp h
    exact List.not_mem_nil
  · exact absurd h List.not_mem_nil

/-- No place has a slash in its names. -/
theorem slash_not_mem_of_mem_onward (hplace : ∀ n ∈ place, '/' ∉ n.toList)
    (hname : '/' ∉ name.toList) : ∀ n ∈ onward place name, '/' ∉ n.toList := by
  have hdots : ∀ n ∈ place ++ [".."], '/' ∉ n.toList :=
    List.forall_mem_append.mpr ⟨hplace, List.forall_mem_singleton.mpr (by decide)⟩
  unfold onward above
  split
  · exact hplace
  · split
    · split
      · exact hdots
      · exact hdots
      · exact hplace
      · exact fun n hn => hplace n (List.dropLast_subset _ hn)
    · exact List.forall_mem_append.mpr ⟨hplace, List.forall_mem_singleton.mpr hname⟩

/-- The names on the way to a place are what stands between the slashes of the path to it. -/
theorem splitOn_pathOf (hne : place ≠ []) (hplace : ∀ n ∈ place, '/' ∉ n.toList) :
    (pathOf place).toList.splitOn '/' = place.map String.toList := by
  rw [pathOf, String.toList_intercalate]
  exact List.splitOn_intercalate '/' (by simpa using hplace) (by simpa using hne)

/-- A path goes on behind the path to a place only if the way leads through the place. -/
theorem isPrefix_of_pathOf_isPrefix (hne : place ≠ []) (hplace : ∀ n ∈ place, '/' ∉ n.toList)
    (hfile : ∀ n ∈ folder ++ [name], '/' ∉ n.toList)
    (h : (pathOf place ++ "/").toList <+: (pathOf (folder ++ [name])).toList) :
    place <+: folder := by
  obtain ⟨tail, htail⟩ := h
  have hsplit := congrArg (List.splitOn '/') htail
  rw [String.toList_append, List.append_assoc] at hsplit
  rw [show "/".toList ++ tail = '/' :: tail from rfl, List.splitOn_append_cons_self,
    splitOn_pathOf hne hplace, splitOn_pathOf (by simp) hfile] at hsplit
  obtain ⟨front, rest, hfolder, hfront, hrest⟩ := List.map_eq_append_iff.mp hsplit.symm
  obtain rfl : front = place :=
    List.map_injective_iff.mpr (fun _ _ => String.toList_injective) hfront
  rcases List.prefix_concat_iff.mp ⟨rest, hfolder.symm⟩ with heq | hpre
  · -- Something stands behind the last slash, be it nothing but an empty name.
    rw [heq, List.self_eq_append_right] at hfolder
    rw [hfolder] at hrest
    exact absurd hrest.symm (List.splitOn_ne_nil _ _)
  · exact hpre

/-! ### Following a path -/

/-- Whether a place and all places on the way to it are folders. -/
def Rooted (d : Directory) (place : List String) : Prop :=
  ∀ p, p <+: place → d.isFolder p = true

/-- A path starts at a place that is there. -/
theorem rooted_start (d : Directory) (path : String) : d.Rooted (start path) := by
  intro p hp
  have hall : p.all (fun name => name == "" || name == "..") = true := by
    rw [List.all_eq_true]
    intro name hname
    have := hp.mem hname
    rw [start] at this
    split at this
    · simp_all
    · simp at this
  simp [isFolder, hall]

/-- A name leads up, or nowhere, or into something of its name. -/
theorem onward_cases (place : List String) (name : String) :
    onward place name <+: place ∨ ∃ last, onward place name = place ++ [last] := by
  unfold onward above
  split
  · exact .inl List.prefix_rfl
  · split
    · split
      · exact .inr ⟨_, rfl⟩
      · exact .inr ⟨_, rfl⟩
      · exact .inl List.prefix_rfl
      · exact .inl (List.dropLast_prefix _)
    · exact .inr ⟨_, rfl⟩

/-- A folder that is come to is there. -/
theorem Rooted.onward (h : d.Rooted place) (hfolder : d.isFolder (onward place name) = true) :
    d.Rooted (onward place name) := by
  intro p hp
  rcases onward_cases place name with hpre | ⟨last, heq⟩
  · exact h p (hp.trans hpre)
  · rw [heq] at hp
    rcases List.prefix_concat_iff.mp hp with rfl | hp
    · exact heq ▸ hfolder
    · exact h p hp

/-- A path is followed name by name, through folders only. -/
theorem follow_cons_eq_ok_iff {name : String} {names : List String} :
    d.follow place (name :: names) = .ok p ↔
      d.isFolder (onward place name) = true ∧ d.follow (onward place name) names = .ok p := by
  rw [follow]
  split
  · simp_all
  · split <;> [skip; split] <;> simp_all

/-- Where a path leads is there. -/
theorem Rooted.follow {names : List String} (h : d.Rooted place)
    (hfollow : d.follow place names = .ok p) : d.Rooted p := by
  induction names generalizing place with
  | nil =>
    obtain rfl : place = p := by simpa [Directory.follow] using hfollow
    exact h
  | cons name names ih =>
    obtain ⟨hfolder, hfollow⟩ := follow_cons_eq_ok_iff.mp hfollow
    exact ih (h.onward hfolder) hfollow

theorem slash_not_mem_of_follow {names : List String} (hplace : ∀ n ∈ place, '/' ∉ n.toList)
    (hnames : ∀ n ∈ names, '/' ∉ n.toList) (hfollow : d.follow place names = .ok p) :
    ∀ n ∈ p, '/' ∉ n.toList := by
  induction names generalizing place with
  | nil =>
    obtain rfl : place = p := by simpa [Directory.follow] using hfollow
    exact hplace
  | cons name names ih =>
    obtain ⟨hname, hnames⟩ := List.forall_mem_cons.mp hnames
    exact ih (slash_not_mem_of_mem_onward hplace hname) hnames (follow_cons_eq_ok_iff.mp hfollow).2

/-- A way stays a way where there are more folders. -/
theorem follow_mono (hmono : ∀ place, d.isFolder place = true → d'.isFolder place = true)
    {names : List String} (h : d.follow place names = .ok p) : d'.follow place names = .ok p := by
  induction names generalizing place with
  | nil => exact h
  | cons name names ih =>
    obtain ⟨hfolder, hfollow⟩ := follow_cons_eq_ok_iff.mp h
    exact follow_cons_eq_ok_iff.mpr ⟨hmono _ hfolder, ih hfollow⟩

/-- A name that leads from a folder to no folder leads further down. -/
theorem Rooted.onward_eq (h : d.Rooted place)
    (hfile : d.isFolder (Directory.onward place name) = false) :
    Directory.onward place name = place ++ [name] := by
  have hnot : ¬ Directory.onward place name <+: place := by
    intro hpre
    rw [h _ hpre] at hfile
    cases hfile
  revert hnot
  unfold Directory.onward above
  split
  · exact fun hnot => absurd List.prefix_rfl hnot
  · split
    case isTrue hname =>
      subst hname
      split
      · exact fun _ => rfl
      · exact fun _ => rfl
      · exact fun hnot => absurd List.prefix_rfl hnot
      · exact fun hnot => absurd (List.dropLast_prefix _) hnot
    case isFalse => exact fun _ => rfl

/-! ### Files put into a folder -/

/-- A file that has been written is found. -/
theorem lookup_put_self (name : String) (contents : ByteArray)
    (files : List (String × ByteArray)) :
    (put name contents files).lookup name = some contents := by
  induction files with
  | nil => simp [put]
  | cons file files ih =>
    obtain ⟨n, old⟩ := file
    rw [put]
    split
    · simp
    case isFalse hn => rw [List.lookup_cons, beq_false_of_ne (Ne.symm hn), ih]

/-- Writing adds a name at most. -/
theorem any_put (name : String) (contents : ByteArray) (q : String → Bool)
    (files : List (String × ByteArray)) :
    ((put name contents files).any fun file => q file.1) =
      ((files.any fun file => q file.1) || q name) := by
  induction files with
  | nil => simp [put]
  | cons file files ih =>
    obtain ⟨n, old⟩ := file
    rw [put]
    split
    case isTrue hn =>
      subst hn
      rw [List.any_cons, List.any_cons, Bool.or_comm, Bool.or_assoc]
      simp
    case isFalse => rw [List.any_cons, List.any_cons, ih, Bool.or_assoc]

/-- The directory with a file of the given name in a folder. -/
def withFile (d : Directory) (folder : List String) (name : String) (contents : ByteArray) :
    Directory :=
  { d with files := put (pathOf (folder ++ [name])) contents d.files }

/-- A new file makes no folders but those above it. -/
theorem isFolder_withFile (d : Directory) (folder : List String) (name : String)
    (contents : ByteArray) (place : List String) :
    (d.withFile folder name contents).isFolder place =
      (d.isFolder place ||
        (pathOf place ++ "/").toList.isPrefixOf (pathOf (folder ++ [name])).toList) := by
  rw [isFolder, isFolder, withFile]
  simp only
  rw [any_put _ _ fun file => (pathOf place ++ "/").toList.isPrefixOf file.toList, ← Bool.or_assoc]

/-- The path to a name in a folder ends with the name. -/
theorem exists_pathOf_append (folder : List String) :
    ∃ front, ∀ name, pathOf (folder ++ [name]) = front ++ name := by
  by_cases hfolder : folder = []
  · subst hfolder
    exact ⟨"", fun name => by simp [pathOf]⟩
  · refine ⟨"/".intercalate folder ++ "/", fun name => ?_⟩
    rw [pathOf, String.intercalate_append_of_ne_nil hfolder (List.cons_ne_nil _ _),
      String.intercalate_singleton]

/-- A file in a folder makes no folder of any name there. -/
theorem isFolder_withFile_of_slash_not_mem (hname : '/' ∉ name.toList) :
    (d.withFile folder name contents).isFolder (folder ++ [name']) =
      d.isFolder (folder ++ [name']) := by
  obtain ⟨front, hfront⟩ := exists_pathOf_append folder
  rw [isFolder_withFile, hfront, hfront, Bool.or_eq_left_iff_imp, List.isPrefixOf_iff_prefix,
    String.toList_append, String.toList_append, String.toList_append, List.append_assoc,
    List.prefix_append_right_inj]
  intro hpre
  exact absurd (hpre.mem (by simp)) hname

/-! ### Where a path leads to -/

/-- Whether a path leads to a name in a folder, under which there is a file or can be one. -/
structure Leads (d : Directory) (path : String) (folder : List String) (name : String) : Prop where
  target_eq : d.target path = .ok (.file folder name)
  not_endsInSlash : endsInSlash path = false
  size_le : name.utf8ByteSize ≤ nameLimit

/-- A path names a file if its front can be followed and its last name is no folder. -/
theorem target_eq_file_iff : d.target path = .ok (.file folder name) ↔
    path.toList.any (·.toNat == 0) = false ∧ path ≠ "" ∧ ¬ pathLimit < path.utf8ByteSize ∧
      d.follow (start path) (names path).dropLast = .ok folder ∧
      (names path).getLast? = some name ∧ d.isFolder (onward folder name) = false := by
  rw [target]
  split
  case isTrue hnull => simp [hnull]
  case isFalse hnull =>
    split
    case isTrue hne => simp [hne]
    case isFalse hne =>
      split
      case isTrue hsize => simp [hsize]
      case isFalse hsize =>
        cases hfollow : d.follow (start path) (names path).dropLast with
        | error fault => simp
        | ok place =>
          cases hlast : (names path).getLast? with
          | none => simp
          | some last =>
            constructor
            · intro h
              dsimp only at h
              split at h
              case isTrue => cases h
              case isFalse hfolder =>
                obtain ⟨rfl, rfl⟩ : place = folder ∧ last = name := by simpa using h
                exact ⟨by simpa using hnull, hne, hsize, rfl, rfl, by simpa using hfolder⟩
            · rintro ⟨-, -, -, hplace, hname, hfile⟩
              obtain rfl : place = folder := Except.ok.inj hplace
              obtain rfl : last = name := Option.some.inj hname
              dsimp only
              rw [hfile]
              rfl

/-- The name that a path leads to is the last one in it. -/
theorem Leads.slash_not_mem (h : d.Leads path folder name) : '/' ∉ name.toList := by
  obtain ⟨-, -, -, -, hname, -⟩ := target_eq_file_iff.mp h.target_eq
  exact slash_not_mem_of_mem_names (List.mem_of_getLast? hname)

theorem Leads.rooted (h : d.Leads path folder name) : d.Rooted folder := by
  obtain ⟨-, -, -, hfollow, -, -⟩ := target_eq_file_iff.mp h.target_eq
  exact (rooted_start d path).follow hfollow

/-- No name on the way to a file has a slash in it. -/
theorem Leads.slash_not_mem_way (h : d.Leads path folder name) :
    ∀ n ∈ folder ++ [name], '/' ∉ n.toList := by
  obtain ⟨-, -, -, hfollow, -, -⟩ := target_eq_file_iff.mp h.target_eq
  refine List.forall_mem_append.mpr ⟨?_, List.forall_mem_singleton.mpr h.slash_not_mem⟩
  exact slash_not_mem_of_follow (fun n => slash_not_mem_of_mem_start)
    (fun n hn => slash_not_mem_of_mem_names (List.dropLast_subset _ hn)) hfollow

/-- A file that is put into a folder changes no way to it. -/
theorem Leads.withFile (h : d.Leads path folder name) (hname : '/' ∉ name'.toList)
    (contents : ByteArray) : (d.withFile folder name' contents).Leads path folder name := by
  refine ⟨?_, h.not_endsInSlash, h.size_le⟩
  obtain ⟨hnull, hne, hsize, hfollow, hlast, hfile⟩ := target_eq_file_iff.mp h.target_eq
  refine target_eq_file_iff.mpr ⟨hnull, hne, hsize, follow_mono ?_ hfollow, hlast, ?_⟩
  · intro place hplace
    rw [isFolder_withFile, hplace, Bool.true_or]
  · -- What the path leads to is not a folder, so it lies beside the new file and is none now.
    have honward := h.rooted.onward_eq hfile
    rw [honward] at hfile ⊢
    rw [isFolder_withFile_of_slash_not_mem hname, hfile]

/-- A file that a path leads to stays a file when another path is written to: what would lie within
it lies in a folder already. -/
theorem Leads.withFile_of_leads (h : d.Leads path folder name) (h' : d.Leads path' folder' name')
    (contents : ByteArray) : (d.withFile folder' name' contents).Leads path folder name := by
  refine ⟨?_, h.not_endsInSlash, h.size_le⟩
  obtain ⟨hnull, hne, hsize, hfollow, hlast, hfile⟩ := target_eq_file_iff.mp h.target_eq
  refine target_eq_file_iff.mpr ⟨hnull, hne, hsize, follow_mono ?_ hfollow, hlast, ?_⟩
  · intro place hplace
    rw [isFolder_withFile, hplace, Bool.true_or]
  · have honward := h.rooted.onward_eq hfile
    rw [honward] at hfile ⊢
    rw [isFolder_withFile, hfile, Bool.false_or, ← Bool.not_eq_true, List.isPrefixOf_iff_prefix]
    intro hpre
    have hfolder := h'.rooted _ (isPrefix_of_pathOf_isPrefix (by simp) h.slash_not_mem_way
      h'.slash_not_mem_way hpre)
    exact Bool.false_ne_true (hfile.symm.trans hfolder)

/-- A path with something put behind it leads to the same folder. -/
theorem Leads.append (h : d.Leads path folder name) (hsuffix : '/' ∉ suffix.toList)
    (h' : d.Leads (path ++ suffix) place name') : place = folder ∧ name' = name ++ suffix := by
  obtain ⟨-, hne, -, hfollow, hlast, -⟩ := target_eq_file_iff.mp h.target_eq
  obtain ⟨-, -, -, hfollow', hlast', -⟩ := target_eq_file_iff.mp h'.target_eq
  obtain ⟨init, last, hnames, hnames'⟩ := exists_names_append hne h.not_endsInSlash hsuffix
  rw [hnames, List.getLast?_concat, Option.some_inj] at hlast
  rw [hnames', List.getLast?_concat, Option.some_inj] at hlast'
  rw [hnames, List.dropLast_concat] at hfollow
  rw [hnames', List.dropLast_concat, start_append hne, hfollow, Except.ok.injEq] at hfollow'
  exact ⟨hfollow'.symm, by rw [← hlast', hlast]⟩

/-! ### Reading and writing -/

/-- What is read is the file that the path leads to. -/
theorem read_eq_ok_iff : d.read path = .ok contents ↔
    ∃ folder name, d.Leads path folder name ∧
      d.files.lookup (pathOf (folder ++ [name])) = some contents := by
  constructor
  · intro h
    rw [read] at h
    split at h
    case h_1 => cases h
    case h_2 => cases h
    case h_3 folder name htarget =>
      split at h
      case isTrue => cases h
      case isFalse hsize =>
        split at h
        case h_2 => cases h
        case h_1 found hfound =>
          split at h
          case isTrue => cases h
          case isFalse hslash =>
            obtain rfl : found = contents := Except.ok.inj h
            exact ⟨folder, name, ⟨htarget, by simpa using hslash, by omega⟩, hfound⟩
  · rintro ⟨folder, name, ⟨htarget, hslash, hsize⟩, hfound⟩
    rw [read, htarget]
    simp only [if_neg (Nat.not_lt.mpr hsize), hfound, hslash]
    rfl

/-- What is written is put where the path leads. -/
theorem write_eq_ok_iff : d.write path contents = .ok d' ↔
    ∃ folder name, d.Leads path folder name ∧ d' = d.withFile folder name contents := by
  constructor
  · intro h
    rw [write] at h
    split at h
    case h_1 => cases h
    case h_2 => cases h
    case h_3 folder name htarget =>
      split at h
      case isTrue => cases h
      case isFalse hslash =>
        split at h
        case isTrue => cases h
        case isFalse hsize =>
          exact ⟨folder, name, ⟨htarget, by simpa using hslash, by omega⟩, (Except.ok.inj h).symm⟩
  · rintro ⟨folder, name, ⟨htarget, hslash, hsize⟩, rfl⟩
    rw [write, htarget]
    simp only [hslash, if_neg (Nat.not_lt.mpr hsize)]
    rfl

theorem Leads.write (h : d.Leads path folder name) (contents : ByteArray) :
    d.write path contents = .ok (d.withFile folder name contents) :=
  write_eq_ok_iff.mpr ⟨folder, name, h, rfl⟩

/-- What was written is read. -/
theorem Leads.read_withFile (h : d.Leads path folder name) (contents : ByteArray) :
    (d.withFile folder name contents).read path = .ok contents :=
  read_eq_ok_iff.mpr ⟨folder, name, h.withFile h.slash_not_mem contents, lookup_put_self _ _ _⟩

/-- A text is read if the bytes are one. -/
theorem readText_eq_ok_iff {text : String} :
    d.readText path = .ok text ↔ d.read path = .ok text.toUTF8 := by
  rw [readText]
  cases d.read path with
  | error fault => simp
  | ok contents =>
    rw [Except.ok.injEq, ← Text.fromUTF8?_eq_some_iff]
    dsimp only
    cases String.fromUTF8? contents with
    | none => simp
    | some decoded => simp

end Directory

end Enumerant
