import DeliveryLedger.Database.Url
import Mathlib.Data.List.TakeWhile
/-!
The database file of an address: the one that an engine opens, and the one that is migrated.

Both paths are rewritten on their way, each by rules of its own; what they come to is decided by
the slashes at the front and the parts behind them (`absolute_eq`).  The engine takes the path as
it stands.  The migration takes it without the names of drivers, wherever they occur, and needs a
home directory that is known.
-/

namespace DeliveryLedger.Database

variable {s : Surroundings} {cs ds home tail : List Char}

namespace Location

/-! ### Slashes and parts -/

theorem parts_slash (cs : List Char) : parts ('/' :: cs) = parts cs := by
  simp [parts, Text.splitAt]

theorem parts_append_slash (cs ds : List Char) :
    parts (cs ++ '/' :: ds) = parts cs ++ parts ds := by
  rw [parts, Text.splitAt_append, List.filter_append]
  rfl

/-- What follows a name in a path: nothing, or a slash and more. -/
def IsTail (tail : List Char) : Prop := tail = [] ∨ ∃ rest, tail = '/' :: rest

theorem isTail_behindAccount (rest : List Char) : IsTail (behindAccount rest) := by
  rcases hdrop : behindAccount rest with _ | ⟨c, tail⟩
  · exact .inl rfl
  · have hc := List.head?_dropWhile_not (fun c : Char => decide (c ≠ '/')) rest
    rw [← behindAccount, hdrop] at hc
    obtain rfl : c = '/' := by simpa using hc
    exact .inr ⟨tail, rfl⟩

theorem parts_append_tail (htail : IsTail tail) (cs : List Char) :
    parts (cs ++ tail) = parts cs ++ parts tail := by
  rcases htail with rfl | ⟨rest, rfl⟩
  · simp [parts, Text.splitAt]
  · rw [parts_append_slash, parts_slash]

theorem parts_orRoot (cs : List Char) : parts (orRoot cs) = parts cs := by
  rw [orRoot]
  split
  · rename_i h
    rw [h]
    rfl
  · rfl

theorem parts_inside (directory cs : List Char) :
    parts (inside directory cs) = parts directory ++ parts cs := by
  rw [inside]
  split
  · rename_i h
    rcases h with rfl | h
    · rfl
    · obtain ⟨before, rfl⟩ := List.getLast?_eq_some_iff.mp h
      rw [List.append_assoc, List.singleton_append, parts_append_slash, parts_append_slash]
      simp [parts, Text.splitAt]
  · exact parts_append_slash directory cs

theorem root_of_head (h : cs.head? ≠ some '/') : root cs = [] := by
  unfold root
  split <;> simp_all

theorem root_eq_nil_iff (cs : List Char) : root cs = [] ↔ cs.head? ≠ some '/' := by
  refine ⟨fun h hslash => ?_, root_of_head⟩
  obtain ⟨rest, rfl⟩ := List.head?_eq_some_iff.mp hslash
  unfold root at h
  split at h <;> simp_all

theorem root_cases (cs : List Char) : root cs = [] ∨ root cs = ['/'] ∨ root cs = ['/', '/'] := by
  unfold root
  split
  · exact .inr (.inl rfl)
  · exact .inr (.inr rfl)
  · exact .inr (.inl rfl)
  · exact .inl rfl

theorem root_append (h : cs ≠ [] ∧ cs.getLast? ≠ some '/' ∨ root tail = []) :
    root (cs ++ tail) = root cs := by
  have hnext : ∀ c more, tail = c :: more → root tail = [] → c ≠ '/' := by
    rintro c more rfl hroot rfl
    exact (root_eq_nil_iff _).mp hroot rfl
  rcases cs with _ | ⟨a, cs⟩
  · exact h.elim (fun h => absurd rfl h.1) id
  -- only a text of one or two slashes could be changed by more of them
  rcases eq_or_ne a '/' with rfl | ha
  · rcases cs with _ | ⟨b, cs⟩
    · rcases tail with _ | ⟨c, tail⟩
      · rfl
      · have hc : c ≠ '/' := hnext c tail rfl (h.resolve_left fun h => h.2 rfl)
        simp [root, hc]
    · rcases eq_or_ne b '/' with rfl | hb
      · rcases cs with _ | ⟨c, cs⟩
        · rcases tail with _ | ⟨c, tail⟩
          · rfl
          · have hc : c ≠ '/' := hnext c tail rfl (h.resolve_left fun h => h.2 rfl)
            simp [root, hc]
        · rcases eq_or_ne c '/' with rfl | hc
          · rfl
          · simp [root, hc]
      · simp [root, hb]
  · rw [root_of_head (by simpa using ha), root_of_head (by simpa using ha)]

theorem root_root (cs : List Char) : root (root cs) = root cs := by
  rcases root_cases cs with h | h | h <;> rw [h] <;> rfl

theorem root_inside (h : root cs = []) (directory : List Char) :
    root (inside directory cs) = root directory := by
  rw [inside]
  split
  · exact root_append (.inr h)
  · rename_i hend
    exact root_append (.inl (not_or.mp hend))

/-- An absolute path is decided by its slashes and parts, a relative one by its parts. -/
theorem absolute_eq (s : Surroundings) (cs : List Char) :
    absolute s cs =
      if root cs = [] then root s.workingDirectory.toList ++
        Text.joinWith '/' (resolve (parts s.workingDirectory.toList ++ parts cs))
      else root cs ++ Text.joinWith '/' (resolve (parts cs)) := by
  rw [absolute]
  by_cases h : cs.head? = some '/'
  · rw [if_pos h, if_neg fun hroot => (root_eq_nil_iff cs).mp hroot h]
    rfl
  · rw [if_neg h, if_pos (root_of_head h), normalize, root_inside (root_of_head h), parts_inside]

/-! ### Paths spelled by their parts -/

/-- A part that counts: it is not empty, not a single point, and holds no slash. -/
structure IsPart (part : List Char) : Prop where
  ne_nil : part ≠ []
  ne_point : part ≠ ['.']
  noSlash : '/' ∉ part

theorem isPart_of_mem_parts {part : List Char} (h : part ∈ parts cs) : IsPart part := by
  obtain ⟨hmem, hpart⟩ := List.mem_filter.mp h
  obtain ⟨hne, hpoint⟩ := of_decide_eq_true hpart
  exact ⟨hne, hpoint, Text.not_mem_of_mem_splitAt hmem⟩

theorem parts_of_isPart {part : List Char} (h : IsPart part) : parts part = [part] := by
  simp [parts, Text.splitAt_of_not_mem h.noSlash, h.ne_nil, h.ne_point]

theorem parts_root_append (cs ds : List Char) : parts (root cs ++ ds) = parts ds := by
  rcases root_cases cs with h | h | h <;> rw [h]
  · rfl
  · exact parts_slash ds
  · exact (parts_slash ('/' :: ds)).trans (parts_slash ds)

theorem parts_joinWith {ps : List (List Char)} (h : ∀ part ∈ ps, IsPart part) :
    parts (Text.joinWith '/' ps) = ps := by
  by_cases hps : ps = []
  · rw [hps]
    rfl
  · rw [parts, Text.splitAt_joinWith hps fun part hpart => (h part hpart).noSlash]
    exact List.filter_eq_self.mpr fun part hpart =>
      decide_eq_true ⟨(h part hpart).ne_nil, (h part hpart).ne_point⟩

theorem root_joinWith {ps : List (List Char)} (h : ∀ part ∈ ps, IsPart part) :
    root (Text.joinWith '/' ps) = [] := by
  apply root_of_head
  rcases ps with _ | ⟨part, ps⟩
  · simp [Text.joinWith]
  · obtain ⟨hne, -, hslash⟩ := h part List.mem_cons_self
    obtain ⟨c, cs, rfl⟩ := List.exists_cons_of_ne_nil hne
    have hc : c ≠ '/' := fun heq => hslash (heq ▸ List.mem_cons_self)
    cases ps <;> simpa [Text.joinWith] using hc

theorem parts_spelled {ps : List (List Char)} (h : ∀ part ∈ ps, IsPart part) (cs : List Char) :
    parts (spelled (root cs) ps) = ps := by
  rw [spelled]
  split
  · rename_i hnone
    rw [hnone.2]
    rfl
  · rw [parts_root_append, parts_joinWith h]

theorem root_spelled {ps : List (List Char)} (h : ∀ part ∈ ps, IsPart part) (cs : List Char) :
    root (spelled (root cs) ps) = root cs := by
  rw [spelled]
  split
  · rename_i hnone
    rw [hnone.1]
    rfl
  · rw [root_append (.inr (root_joinWith h)), root_root]

/-! ### Home directories -/

theorem getLast?_withoutEnd (cs : List Char) : (withoutEnd cs).getLast? ≠ some '/' := by
  rw [withoutEnd, List.getLast?_reverse]
  have hhead := List.head?_dropWhile_not (fun c : Char => decide (c = '/')) cs.reverse
  intro h
  rw [h] at hhead
  simp at hhead

theorem getLast?_of_homeOf? {name : List Char} (h : homeOf? s name = some home) :
    home.getLast? ≠ some '/' := by
  rw [homeOf?] at h
  split at h
  · cases h
    exact getLast?_withoutEnd _
  · obtain ⟨entry, -, rfl⟩ := Option.map_eq_some_iff.mp h
    exact getLast?_withoutEnd _

theorem parts_tilde (rest : List Char) :
    parts ('~' :: rest) = ('~' :: account rest) :: parts (behindAccount rest) := by
  have hname : IsPart ('~' :: account rest) := by
    refine ⟨List.cons_ne_nil _ _, by simp, fun hmem => ?_⟩
    rcases List.mem_cons.mp hmem with h | h
    · exact absurd h (by decide)
    · simpa using List.mem_takeWhile_imp h
  calc parts ('~' :: rest) = parts (('~' :: account rest) ++ behindAccount rest) := by
        rw [List.cons_append, account, behindAccount, List.takeWhile_append_dropWhile]
    _ = ('~' :: account rest) :: parts (behindAccount rest) := by
        rw [parts_append_tail (isTail_behindAccount rest), parts_of_isPart hname]
        rfl

/-! ### The two ways to a file -/

/-- The file that a path leads to: absolute, with the home directory filled in. -/
def file (s : Surroundings) (cs : List Char) : List Char := absolute s (expandHome s cs)

/-- The path of a database file as the migration spells it. -/
def migrated? (s : Surroundings) (cs : List Char) : Option (List Char) :=
  match cs with
  | '~' :: _ => underHome? s cs
  | _ => some cs

/-- If a path begins with a tilde, there is a home directory behind it, which does not begin with
a tilde in turn. -/
def HomeKnown (s : Surroundings) (cs : List Char) : Prop :=
  ∀ rest, cs = '~' :: rest → ∃ home, homeOf? s (account rest) = some home ∧ home.head? ≠ some '~'

/-- The home directory is the root itself, and exactly two slashes stand between it and the rest of
the path. -/
def DoublesRoot (s : Surroundings) (cs : List Char) : Prop :=
  ∃ rest, cs = '~' :: rest ∧ homeOf? s (account rest) = some [] ∧
    root (behindAccount rest) = ['/', '/']

theorem homeKnown_tilde {rest : List Char} : HomeKnown s ('~' :: rest) ↔
    ∃ home, homeOf? s (account rest) = some home ∧ home.head? ≠ some '~' := by
  simp [HomeKnown]

theorem doublesRoot_tilde {rest : List Char} : DoublesRoot s ('~' :: rest) ↔
    homeOf? s (account rest) = some [] ∧ root (behindAccount rest) = ['/', '/'] := by
  simp [DoublesRoot]

theorem absolute_eq_absolute_iff (hparts : parts cs = parts ds) (hcs : root cs ≠ [])
    (hds : root ds ≠ []) : absolute s cs = absolute s ds ↔ root cs = root ds := by
  rw [absolute_eq, absolute_eq, if_neg hcs, if_neg hds, hparts, List.append_left_inj]

theorem absolute_congr (hroot : root cs = root ds) (hparts : parts cs = parts ds) :
    absolute s cs = absolute s ds := by
  rw [absolute_eq, absolute_eq, hroot, hparts]

theorem head?_orRoot (cs : List Char) : (orRoot cs).head? = some '~' ↔ cs.head? = some '~' := by
  rw [orRoot]
  split
  · rename_i h
    simp [h]
  · rfl

theorem migrated?_tilde (s : Surroundings) (rest : List Char) :
    migrated? s ('~' :: rest) =
      ((homeOf? s (account rest)).filter fun home => home.head? ≠ some '~').map fun home =>
        spelled (root (orRoot home)) (parts home ++ parts (behindAccount rest)) := by
  rw [migrated?, underHome?, parts_tilde]
  split
  case h_2 hnone => exact absurd rfl (hnone _ _)
  rename_i heq
  obtain ⟨hname, rfl⟩ := List.cons.inj heq
  obtain rfl := (List.cons.inj hname).2
  rcases homeOf? s (account rest) with _ | home
  · rfl
  · rw [Option.map_some, Option.filter_some]
    by_cases htilde : home.head? = some '~'
    · obtain ⟨more, hmore⟩ := List.head?_eq_some_iff.mp ((head?_orRoot home).mpr htilde)
      rw [hmore]
      simp [htilde]
    · have hfull : (orRoot home).head? ≠ some '~' := fun h => htilde ((head?_orRoot home).mp h)
      rw [if_pos (by simpa using htilde), Option.map_some, ← parts_orRoot home]
      generalize orRoot home = full at hfull ⊢
      split
      · simp_all
      · simp_all
      · rename_i hsome
        rw [Option.some.inj hsome]

theorem migrated?_eq_none_iff (s : Surroundings) (cs : List Char) :
    migrated? s cs = none ↔ ¬ HomeKnown s cs := by
  rcases cs with _ | ⟨c, rest⟩
  · simp [migrated?, HomeKnown]
  rcases eq_or_ne c '~' with rfl | hc
  · rw [migrated?_tilde, Option.map_eq_none_iff]
    rcases hhome : homeOf? s (account rest) with _ | home <;> simp [homeKnown_tilde, hhome]
  · simp [migrated?, HomeKnown, hc]

theorem absolute_spelled_iff {rest : List Char} (hhome : homeOf? s (account rest) = some home) :
    absolute s (spelled (root (orRoot home)) (parts home ++ parts (behindAccount rest))) =
      absolute s (orRoot (home ++ behindAccount rest)) ↔
    ¬ (home = [] ∧ root (behindAccount rest) = ['/', '/']) := by
  have hps : ∀ part ∈ parts home ++ parts (behindAccount rest), IsPart part := by
    intro part hpart
    rcases List.mem_append.mp hpart with h | h <;> exact isPart_of_mem_parts h
  have hparts : parts (spelled (root (orRoot home)) (parts home ++ parts (behindAccount rest))) =
      parts (orRoot (home ++ behindAccount rest)) := by
    rw [parts_spelled hps, parts_orRoot, parts_append_tail (isTail_behindAccount rest)]
  have hroot := root_spelled hps (orRoot home)
  -- a home directory ends with no slash, so only an empty one joins the slashes behind it
  rcases eq_or_ne home [] with rfl | hne
  · have hslash : root (orRoot []) = ['/'] := rfl
    have htail : root (orRoot (behindAccount rest)) ≠ [] ∧
        (root (orRoot (behindAccount rest)) = ['/'] ↔ root (behindAccount rest) ≠ ['/', '/']) := by
      rcases isTail_behindAccount rest with h | ⟨more, h⟩
      · simp [h, orRoot, root]
      · rw [h, orRoot, if_neg (List.cons_ne_nil _ _)]
        have hne : root ('/' :: more) ≠ [] := fun h => (root_eq_nil_iff _).mp h rfl
        rcases root_cases ('/' :: more) with h | h | h
        · exact absurd h hne
        · simp [h]
        · simp [h]
    rw [absolute_eq_absolute_iff hparts (by rw [hroot, hslash]; exact List.cons_ne_nil _ _) htail.1,
      hroot, hslash, eq_comm, List.nil_append, htail.2]
    simp
  · refine iff_of_true (absolute_congr (hroot.trans ?_) hparts) fun h => hne h.1
    have hboth : home ++ behindAccount rest ≠ [] := fun h => hne (List.append_eq_nil_iff.mp h).1
    rw [orRoot, if_neg hne, orRoot, if_neg hboth]
    exact (root_append (.inl ⟨hne, getLast?_of_homeOf? hhome⟩)).symm

theorem absolute_migrated_iff (h : migrated? s cs = some ds) :
    absolute s ds = file s cs ↔ ¬ DoublesRoot s cs := by
  rcases cs with _ | ⟨c, rest⟩
  · obtain rfl := Option.some.inj h
    exact iff_of_true rfl (by simp [DoublesRoot])
  rcases eq_or_ne c '~' with rfl | hc
  · rw [migrated?_tilde] at h
    obtain ⟨home, hfilter, rfl⟩ := Option.map_eq_some_iff.mp h
    have hhome := Option.eq_some_of_filter_eq_some hfilter
    have hfile : expandHome s ('~' :: rest) = orRoot (home ++ behindAccount rest) := by
      rw [expandHome, hhome]
    rw [file, hfile, absolute_spelled_iff hhome]
    simp [doublesRoot_tilde, hhome]
  · have hsame : migrated? s (c :: rest) = some (c :: rest) := by simp [migrated?, hc]
    obtain rfl := Option.some.inj (hsame.symm.trans h)
    have hfile : expandHome s (c :: rest) = c :: rest := by simp [expandHome, hc]
    exact iff_of_true (by rw [file, hfile]) (by simp [DoublesRoot, hc])

end Location

open Location

/-! ### Addresses of database files -/

theorem withoutDriver_append (path : List Char) :
    withoutDriver ("sqlite+aiosqlite:///".toList ++ path) =
      "sqlite:///".toList ++ withoutDriver path := by
  have hname : Text.dropWord "+aiosqlite".toList ("sqlite+aiosqlite:///".toList ++ path) =
      "sqlite:///".toList ++ Text.dropWord "+aiosqlite".toList path :=
    calc Text.dropWord "+aiosqlite".toList ("sqlite+aiosqlite:///".toList ++ path)
      _ = "sqlite".toList ++ Text.dropWord "+aiosqlite".toList
            ("+aiosqlite".toList ++ (":///".toList ++ path)) :=
          Text.dropWord_append (show '+' ∉ "sqlite".toList by decide) _ _
      _ = "sqlite".toList ++ Text.dropWord "+aiosqlite".toList (":///".toList ++ path) :=
          congrArg _ (Text.dropWord_word_append _ _ _)
      _ = "sqlite".toList ++ (":///".toList ++ Text.dropWord "+aiosqlite".toList path) :=
          congrArg _ (Text.dropWord_append (by decide) _ _)
  rw [withoutDriver, hname]
  exact Text.dropWord_append (by decide) _ _

theorem withoutDriver_eq_self {path : List Char}
    (haiosqlite : Text.hasWord "+aiosqlite".toList path = false)
    (hasyncpg : Text.hasWord "+asyncpg".toList path = false) : withoutDriver path = path := by
  have hfirst : Text.dropWord "+aiosqlite".toList path = path :=
    Text.dropWord_of_not_hasWord haiosqlite
  rw [withoutDriver, hfirst]
  exact Text.dropWord_of_not_hasWord hasyncpg

theorem splitPath?_append {scheme : List Char} (h : '/' ∉ scheme) (path : List Char) :
    splitPath? (scheme ++ "///".toList ++ path) = some (scheme ++ "///".toList, path) := by
  have hbreak : Text.breakOn? "///".toList (scheme ++ "///".toList ++ path) = some (scheme, path) :=
    Text.breakOn?_append h _ _
  rw [splitPath?, hbreak]
  rfl

theorem hasWord_memory_append (path : List Char) :
    Text.hasWord ":memory:".toList ("sqlite+aiosqlite:///".toList ++ path) =
      Text.hasWord ":memory:".toList path := by
  simp [Text.hasWord_cons, List.isPrefixOf]

theorem expandUrl_append {path : String} (hpath : path ≠ "")
    (hmemory : Text.hasWord ":memory:".toList path.toList = false) (s : Surroundings) :
    expandUrl s ("sqlite+aiosqlite:///" ++ path) =
      "sqlite+aiosqlite:///" ++ String.ofList (file s path.toList) := by
  have hscheme : "sqlite".toList.isPrefixOf ("sqlite+aiosqlite:///" ++ path).toList = true := by
    simp
  have hne : path.toList ≠ [] := by simpa using hpath
  have hsplit : splitPath? ("sqlite+aiosqlite:///".toList ++ path.toList) =
      some ("sqlite+aiosqlite:///".toList, path.toList) :=
    splitPath?_append (show '/' ∉ "sqlite+aiosqlite:".toList by decide) path.toList
  rw [expandUrl]
  simp only [hscheme]
  rw [String.toList_append, hasWord_memory_append, hmemory, hsplit]
  simp only [Bool.not_true, Bool.or_self, Bool.false_eq_true, if_false, if_neg hne]
  rw [String.ofList_append, String.ofList_toList, file]

theorem syncUrl_append (s : Surroundings) (path : String) :
    syncUrl s ("sqlite+aiosqlite:///" ++ path) =
      match migrated? s (withoutDriver path.toList) with
      | some migrated => .ok ("sqlite:///" ++ String.ofList migrated)
      | none => .error .unknownHome := by
  have hscheme : ∀ left, Text.hasWord "sqlite:///".toList ("sqlite:///".toList ++ left) = true := by
    intro left
    have hbreak : Text.breakOn? "sqlite:///".toList ([] ++ "sqlite:///".toList ++ left) =
        some ([], left) := Text.breakOn?_append List.not_mem_nil _ _
    rw [List.nil_append] at hbreak
    rw [Text.hasWord, hbreak]
    rfl
  have hsplit : ∀ left, splitPath? ("sqlite:///".toList ++ left) =
      some ("sqlite:///".toList, left) :=
    splitPath?_append (show '/' ∉ "sqlite:".toList by decide)
  rw [syncUrl, String.toList_append, withoutDriver_append]
  simp only [hscheme, hsplit, if_true, String.ofList_append, String.ofList_toList]
  rcases withoutDriver path.toList with _ | ⟨c, left⟩
  · rfl
  · rcases eq_or_ne c '~' with rfl | hc
    · rcases hhome : underHome? s ('~' :: left) with _ | migrated <;> simp only [migrated?, hhome]
    · have hsame : migrated? s (c :: left) = some (c :: left) := by simp [migrated?, hc]
      rw [hsame]
      split
      · simp_all
      · rfl

/-! ### Addresses in options -/

/-- A text with each percent sign doubled. -/
def escapePercent (cs : List Char) : List Char :=
  cs.flatMap fun c => if c = '%' then ['%', '%'] else [c]

theorem escapePercent_percent (cs : List Char) :
    escapePercent ('%' :: cs) = '%' :: '%' :: escapePercent cs := rfl

theorem escapePercent_cons {c : Char} (h : c ≠ '%') (cs : List Char) :
    escapePercent (c :: cs) = c :: escapePercent cs := by
  simp [escapePercent, h]

theorem escapePercent_eq_self {cs : List Char} (h : '%' ∉ cs) : escapePercent cs = cs := by
  induction cs with
  | nil => rfl
  | cons c cs ih =>
    obtain ⟨hc, hcs⟩ := List.ne_and_not_mem_of_not_mem_cons h
    rw [escapePercent_cons (Ne.symm hc), ih hcs]

theorem unescapePercent_cons {c : Char} (h : c ≠ '%') (cs : List Char) :
    unescapePercent (c :: cs) = c :: unescapePercent cs := by
  rw [unescapePercent]
  rintro _ rfl
  exact absurd rfl h

theorem unescapePercent_escapePercent (cs : List Char) :
    unescapePercent (escapePercent cs) = cs := by
  induction cs with
  | nil => rfl
  | cons c cs ih =>
    by_cases hc : c = '%'
    · rw [hc, escapePercent_percent, unescapePercent, ih]
    · rw [escapePercent_cons hc, unescapePercent_cons hc, ih]

theorem escapePercent_injective : Function.Injective escapePercent :=
  Function.LeftInverse.injective unescapePercent_escapePercent

theorem dropWord_escapePercent (cs : List Char) :
    '%' ∉ Text.dropWord "%%".toList (escapePercent cs) := by
  induction cs with
  | nil => exact List.not_mem_nil
  | cons c cs ih =>
    by_cases hc : c = '%'
    · rw [hc, escapePercent_percent]
      exact (Text.dropWord_word_append '%' ['%'] (escapePercent cs)).symm ▸ ih
    · rw [escapePercent_cons hc]
      have hhead : '%' ∉ [c] := by simpa using Ne.symm hc
      have happend : Text.dropWord "%%".toList ([c] ++ escapePercent cs) =
          [c] ++ Text.dropWord "%%".toList (escapePercent cs) :=
        Text.dropWord_append hhead _ _
      rw [List.singleton_append] at happend
      rw [happend]
      exact List.not_mem_append hhead ih

theorem escapePercent_unescapePercent {cs : List Char}
    (h : '%' ∉ Text.dropWord "%%".toList cs) : escapePercent (unescapePercent cs) = cs := by
  induction cs using unescapePercent.induct with
  | case1 cs ih =>
    have hpair : Text.dropWord "%%".toList ('%' :: '%' :: cs) = Text.dropWord "%%".toList cs :=
      Text.dropWord_word_append '%' ['%'] cs
    rw [unescapePercent, escapePercent_percent, ih (hpair ▸ h)]
  | case2 c cs hsingle ih =>
    have hkept : Text.dropWord "%%".toList (c :: cs) = c :: Text.dropWord "%%".toList cs := by
      refine (Text.dropWord_cons '%' ['%'] c cs).trans (if_neg fun hpair => ?_)
      obtain ⟨rest, hrest⟩ := List.isPrefixOf_iff_prefix.mp hpair
      obtain ⟨rfl, rfl⟩ := List.cons.inj hrest
      exact hsingle rest rfl rfl
    rw [hkept] at h
    obtain ⟨hc, hcs⟩ := List.ne_and_not_mem_of_not_mem_cons h
    rw [unescapePercent_cons (Ne.symm hc), escapePercent_cons (Ne.symm hc), ih hcs]
  | case3 => rfl

/-- An option gives back the text whose percent signs were doubled, and refuses any other. -/
theorem optionText_cases (value : String) :
    (∃ read, optionText value = .ok read ∧ escapePercent read.toList = value.toList) ∨
      (∃ position, optionText value = .error (.stray value position)) ∧
        ∀ cs, escapePercent cs ≠ value.toList := by
  rcases hstray : (Text.dropWord "%%".toList value.toList).findIdx? (· = '%') with _ | position
  · have hnone : '%' ∉ Text.dropWord "%%".toList value.toList := fun hmem => by
      simpa using List.findIdx?_eq_none_iff.mp hstray '%' hmem
    refine .inl ⟨String.ofList (unescapePercent value.toList), ?_, ?_⟩
    · simp only [optionText, hstray]
    · rw [String.toList_ofList, escapePercent_unescapePercent hnone]
  · refine .inr ⟨⟨position, ?_⟩, fun cs hcs => ?_⟩
    · simp only [optionText, hstray]
    · have hnone := List.findIdx?_eq_none_iff.mpr fun c hc =>
        decide_eq_false fun heq : c = '%' => dropWord_escapePercent cs (heq ▸ hc)
      rw [hcs, hstray] at hnone
      cases hnone

theorem optionText_eq_self {value : String} (h : '%' ∉ value.toList) :
    optionText value = .ok value := by
  rcases optionText_cases value with ⟨read, hread, hescape⟩ | ⟨-, hnone⟩
  · rw [hread, String.toList_injective
      (escapePercent_injective (hescape.trans (escapePercent_eq_self h).symm))]
  · exact absurd (escapePercent_eq_self h) (hnone _)

/-! ### The file that is opened and the file that is migrated -/

/-- For a database file the engine opens the file of its path.  The migration goes by the path
without any name of a driver in it, which needs a home directory that is known, and leads to its
file unless it doubles the slash of the root. -/
theorem migration_meets_engine (s : Surroundings) (path : String) (hpath : path ≠ "")
    (hmemory : Text.hasWord ":memory:".toList path.toList = false) :
    let url := "sqlite+aiosqlite:///" ++ path
    let left := withoutDriver path.toList
    expandUrl s url = "sqlite+aiosqlite:///" ++ String.ofList (file s path.toList) ∧
    (¬ HomeKnown s left → syncUrl s url = .error .unknownHome) ∧
    (HomeKnown s left → ∃ migrated,
      syncUrl s url = .ok ("sqlite:///" ++ String.ofList migrated) ∧
      ('%' ∉ migrated → storedUrl s url = syncUrl s url) ∧
      (Text.hasWord "%(".toList migrated = false →
        (∃ read, storedUrl s url = .ok read ∧
          escapePercent read.toList = "sqlite:///".toList ++ migrated) ∨
        (∃ position, storedUrl s url =
            .error (.stray ("sqlite:///" ++ String.ofList migrated) position)) ∧
          ∀ cs, escapePercent cs ≠ "sqlite:///".toList ++ migrated) ∧
      (absolute s migrated = file s left ↔ ¬ DoublesRoot s left)) ∧
    (Text.hasWord "+aiosqlite".toList path.toList = false →
      Text.hasWord "+asyncpg".toList path.toList = false → left = path.toList) := by
  intro url left
  have hsync : syncUrl s url = match migrated? s left with
      | some migrated => .ok ("sqlite:///" ++ String.ofList migrated)
      | none => .error .unknownHome := syncUrl_append s path
  refine ⟨expandUrl_append hpath hmemory s, fun hunknown => ?_, fun hknown => ?_,
    withoutDriver_eq_self⟩
  · rw [hsync, (migrated?_eq_none_iff s left).mpr hunknown]
  · obtain ⟨migrated, hmigrated⟩ := Option.ne_none_iff_exists'.mp fun h =>
      (migrated?_eq_none_iff s left).mp h hknown
    rw [hmigrated] at hsync
    have hstored : storedUrl s url = optionText ("sqlite:///" ++ String.ofList migrated) := by
      rw [storedUrl, hsync]
      rfl
    refine ⟨migrated, hsync, fun hpercent => ?_, fun _ => ?_, absolute_migrated_iff hmigrated⟩
    · rw [hstored, hsync]
      exact optionText_eq_self (by simpa using hpercent)
    · rw [hstored]
      simpa using optionText_cases ("sqlite:///" ++ String.ofList migrated)

theorem migration_meets_engine_home :
    let s : Surroundings := ⟨"/home/ann/", "/srv", [("bob", "/home/bob")]⟩
    let path := "~//data/./ledger.db"
    path ≠ "" ∧ Text.hasWord ":memory:".toList path.toList = false ∧
    HomeKnown s path.toList ∧ ¬ DoublesRoot s path.toList ∧
    ∃ migrated, syncUrl s ("sqlite+aiosqlite:///" ++ path) =
        .ok ("sqlite:///" ++ String.ofList migrated) ∧
      absolute s migrated = file s path.toList := by
  have hhome : homeOf? ⟨"/home/ann/", "/srv", [("bob", "/home/bob")]⟩
      (account "//data/./ledger.db".toList) = some "/home/ann".toList := by decide
  intro s path
  have htilde : path.toList = '~' :: "//data/./ledger.db".toList := by decide
  have hknown : HomeKnown s path.toList := by
    rw [htilde, homeKnown_tilde]
    exact ⟨_, hhome, by decide⟩
  have hdouble : ¬ DoublesRoot s path.toList := by
    rw [htilde, doublesRoot_tilde]
    exact fun h => absurd (h.1.symm.trans hhome) (by decide)
  obtain ⟨-, -, hmeets, hleft⟩ := migration_meets_engine s path (by decide) (by decide)
  rw [hleft (by decide) (by decide)] at hmeets
  obtain ⟨migrated, hsync, -, -, hfile⟩ := hmeets hknown
  exact ⟨by decide, by decide, hknown, hdouble, migrated, hsync, hfile.mpr hdouble⟩

theorem migration_loses_driver_names :
    let s : Surroundings := ⟨"/home/ann", "/srv", []⟩
    let url := "sqlite+aiosqlite:///" ++ "/data/ledger+asyncpg.db"
    expandUrl s url = "sqlite+aiosqlite:///" ++ "/data/ledger+asyncpg.db" ∧
    syncUrl s url = .ok ("sqlite:///" ++ "/data/ledger.db") ∧
    absolute s "/data/ledger.db".toList ≠ "/data/ledger+asyncpg.db".toList :=
  ⟨rfl, rfl, by decide⟩

end DeliveryLedger.Database
