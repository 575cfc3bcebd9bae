import FlatDb.Proofs.Operations
import FlatDb.Proofs.Sequences

/-! # Ids from the file of the registry

The counters of all tables are in one file, which is read, changed and replaced for every id.

* A registry that can be read can be replaced any number of times or never, and which of the two it is
  depends on the directory alone: `Disk.Replaceable`, `Disk.storeRegistry_cases`.
* `Disk.allocate_cases`, `Disk.allocate_of_legible`: the id comes from the counters that were read, and the
  next reader finds the counters after it if the names are legible.
* `answers_of_allocateAll`: **any sequence of calls** for names of letters and digits gives each pair of
  names its own ids in order, whatever else was in the file; or no call is answered with an id and
  nothing changes.
* `allocate_again`: **an id is followed by the next one exactly if the names are legible**.  For other
  names the first id is given again, or the registry cannot be read any more. -/

namespace FlatDb

open Text Node
open Registry (countedAs SamePair Plain)

namespace Disk

variable {d : Disk} {root : Path} {r : Registry}

/-! ### The file of the registry -/

/-- The registry below a root can be replaced: there is a directory for it, and there is room beside it
for the temporary file. -/
def Replaceable (d : Disk) (root : Path) : Prop :=
  (∃ place entries, d.locate root = .ok place ∧ d.entriesAt place = .ok entries) ∧
    ¬ d.Cramped (registryPath root)

theorem readable_of_readRegistry (h : d.readRegistry root = .ok r) : r.Readable := by
  unfold readRegistry at h
  split at h
  · cases h
    exact Registry.readable_nil
  · cases h
  · split at h
    · next hdecode =>
        cases h
        exact Registry.readable_of_decode hdecode
    · cases h

/-- What is read as a registry is a text, or it is missing. -/
theorem readText_of_readRegistry (h : d.readRegistry root = .ok r) :
    d.readText (registryPath root) = .error .missing ∨
      ∃ contents, d.readText (registryPath root) = .ok contents := by
  unfold readRegistry at h
  split at h
  · next hread => exact .inl hread
  · cases h
  · next contents hread => exact .inr ⟨contents, hread⟩

/-- The path of a registry that can be read is in order.  The directory for it may be missing, but no
directory is in its place. -/
theorem place_of_readRegistry (h : d.readRegistry root = .ok r) :
    (registryPath root).fault? = none ∧
      ((∀ place, d.locate root = .ok place → d.find place = .error .missing) ∨
        ∃ place entries, d.locate root = .ok place ∧ d.entriesAt place = .ok entries ∧
          ∀ below, entries.lookup registryName ≠ some (.directory below)) := by
  have hread := readText_of_readRegistry h
  unfold readText Node.read at hread
  have hfind {cause : Cause} (hf : d.findPath (registryPath root) = .error cause) :
      cause = .missing := by
    rw [hf] at hread
    simpa using hread
  have hfault : (registryPath root).fault? = none := by
    cases hf : (registryPath root).fault? with
    | none => rfl
    | some cause =>
        have he : d.findPath (registryPath root) = .error cause := by
          unfold findPath resolve
          rw [hf]
          rfl
        exact absurd (hfind he) (Path.ne_missing_of_textFault? hf)
  refine ⟨hfault, ?_⟩
  cases hl : d.locate root with
  | error cause => exact .inl fun place hp => nomatch hp
  | ok place =>
      have hpath : d.findPath (registryPath root) =
          (d.find place).bind fun node => node.find [registryName] :=
        (findPath_of_resolve (resolve_child hl hfault)).trans (find_append d place _)
      rcases hp : d.find place with cause | bytes | entries
      · rw [hp] at hpath
        refine .inl fun other ho => ?_
        cases ho
        rw [hp, hfind hpath]
      · rw [hp] at hpath
        cases hfind hpath
      · refine .inr ⟨place, entries, rfl, entriesAt_eq_ok_iff.mpr hp, fun below hb => ?_⟩
        have hdir : d.findPath (registryPath root) = .ok (.directory below) := by
          rw [hpath, hp]
          change (directory entries).find [registryName] = _
          rw [find_directory_cons, if_neg (by decide), hb]
          rfl
        rw [hdir] at hread
        simp at hread

/-- **Storing a registry that can be read.**  Either none can be stored, or each can; then it can be
replaced again, and whoever reads it finds what its text says. -/
theorem storeRegistry_cases (h : d.readRegistry root = .ok r) :
    ¬ d.Replaceable root ∧ (∀ r', ∃ why, d.storeRegistry root r' = (.error why, d)) ∨
      d.Replaceable root ∧ ∀ r', ∃ d', d.storeRegistry root r' = (.ok (), d') ∧
        d'.Replaceable root ∧ d'.readRegistry root =
          (Registry.decode r'.encode).mapError (.corrupt (registryPath root).text) := by
  -- a registry is stored by replacing its file
  have hfails (hfull : ∀ bytes, ∃ cause, d.replace (registryPath root) bytes = (.error cause, d))
      (r' : Registry) : ∃ why, d.storeRegistry root r' = (.error why, d) := by
    obtain ⟨cause, hr⟩ := hfull r'.encode.toBytes
    unfold storeRegistry
    rw [hr]
    exact ⟨_, rfl⟩
  obtain ⟨hfault, hmissing | ⟨place, entries, hl, he, hd⟩⟩ := place_of_readRegistry h
  · refine .inl ⟨?_, hfails fun bytes => replace_child_of_missing hmissing hfault bytes⟩
    rintro ⟨⟨place, entries, hl, he⟩, -⟩
    cases (hmissing place hl).symm.trans (entriesAt_eq_ok_iff.mp he)
  · rcases replace_cases hl he hd hfault with ⟨hc, hfull⟩ | ⟨hc, hs, hroom⟩
    · exact .inl ⟨fun hr => hr.2 hc, hfails hfull⟩
    · refine .inr ⟨⟨⟨place, entries, hl, he⟩, hc⟩, fun r' => ?_⟩
      have hagain : (d.put place registryName (.file r'.encode.toBytes)).Replaceable root :=
        ⟨⟨place, _, locate_put_file hl he hd _, entriesAt_alter he⟩,
          fun hcramped => hc ((cramped_put_file hl he hd _).mp hcramped)⟩
      refine ⟨_, ?_, hagain, ?_⟩
      · unfold storeRegistry
        rw [registryPath, (hroom r'.encode.toBytes).1]
      · unfold readRegistry
        rw [registryPath, readText_put_file hl he hd hfault hs]
        dsimp only
        cases Registry.decode r'.encode <;> rfl

/-! ### One id -/

/-- **One id.**  No id is given and nothing changes, or the next id is given and the counters after it are
in the file. -/
theorem allocate_cases (h : d.readRegistry root = .ok r) (call : Text × Text) :
    ¬ d.Replaceable root ∧ (∃ why, d.allocate root call.1 call.2 = (.error why, d)) ∨
      d.Replaceable root ∧ ∃ d', d.allocate root call.1 call.2 = (.ok (r.next (countedAs call)), d') ∧
        d'.Replaceable root ∧ d'.readRegistry root =
          (Registry.decode (r.allocate call.1 call.2).2.encode).mapError
            (.corrupt (registryPath root).text) := by
  unfold allocate
  rw [h]
  dsimp only
  have hid : (r.allocate call.1 call.2).1 = r.next (countedAs call) := by
    rw [Registry.allocate_eq_take, Registry.take_fst_eq]
  rcases storeRegistry_cases h with ⟨hr, hs⟩ | ⟨hr, hs⟩
  · obtain ⟨why, hs⟩ := hs (r.allocate call.1 call.2).2
    rw [hs]
    exact .inl ⟨hr, why, rfl⟩
  · obtain ⟨d', hs, hagain⟩ := hs (r.allocate call.1 call.2).2
    rw [hs, hid]
    exact .inr ⟨hr, d', rfl, hagain⟩

/-- An id for legible names leaves a registry that can be read. -/
theorem allocate_of_legible (h : d.readRegistry root = .ok r) (hr : d.Replaceable root)
    {call : Text × Text} (hl : Registry.Legible (countedAs call).1 (countedAs call).2) :
    ∃ d', d.allocate root call.1 call.2 = (.ok (r.next (countedAs call)), d') ∧
      d'.Replaceable root ∧ d'.readRegistry root = .ok (r.allocate call.1 call.2).2 := by
  rcases allocate_cases h call with ⟨hnot, -⟩ | ⟨-, d', ha, hagain, hread⟩
  · exact absurd hr hnot
  · rw [((readable_of_readRegistry h).allocate hl).decode_encode] at hread
    exact ⟨d', ha, hagain, hread⟩

/-! ### Many ids -/

/-- Hands out ids for tables of databases, one after the other. -/
def allocateAll (d : Disk) (root : Path) :
    List (Text × Text) → List (Except StorageError Nat) × Disk
  | [] => ([], d)
  | call :: more =>
    let (answer, d) := d.allocate root call.1 call.2
    let (answers, d) := allocateAll d root more
    (answer :: answers, d)

theorem length_allocateAll (d : Disk) (root : Path) (calls : List (Text × Text)) :
    (d.allocateAll root calls).1.length = calls.length := by
  induction calls generalizing d with
  | nil => rfl
  | cons call more ih => simp [allocateAll, ih]

theorem allocateAll_of_not_replaceable (h : d.readRegistry root = .ok r) (hr : ¬ d.Replaceable root)
    (calls : List (Text × Text)) :
    (∀ answer ∈ (d.allocateAll root calls).1, ∃ why, answer = .error why) ∧
      (d.allocateAll root calls).2 = d := by
  induction calls with
  | nil => exact ⟨fun _ ha => (nomatch ha), rfl⟩
  | cons call more ih =>
      rcases allocate_cases h call with ⟨-, why, ha⟩ | ⟨hyes, -⟩
      · rw [allocateAll, ha]
        exact ⟨List.forall_mem_cons.mpr ⟨⟨why, rfl⟩, ih.1⟩, ih.2⟩
      · exact absurd hyes hr

/-- Ids from the file are ids from the list of counters that is in it. -/
theorem allocateAll_of_replaceable (h : d.readRegistry root = .ok r) (hr : d.Replaceable root)
    {calls : List (Text × Text)}
    (hl : ∀ call ∈ calls, Registry.Legible (countedAs call).1 (countedAs call).2) :
    (d.allocateAll root calls).1 = (Registry.takeAll (calls.map countedAs) r).1.map .ok ∧
      (d.allocateAll root calls).2.readRegistry root =
        .ok (Registry.takeAll (calls.map countedAs) r).2 := by
  induction calls generalizing d r with
  | nil => exact ⟨rfl, h⟩
  | cons call more ih =>
      obtain ⟨hcall, hmore⟩ := List.forall_mem_cons.mp hl
      obtain ⟨d', ha, hr', hread⟩ := allocate_of_legible h hr hcall
      obtain ⟨hids, hlast⟩ := ih hread hr' hmore
      rw [Registry.allocate_eq_take] at hids hlast
      rw [allocateAll, ha, List.map_cons, Registry.takeAll_cons]
      exact ⟨congrArg (_ :: ·) hids, hlast⟩

end Disk

/-- **Ids for names of letters and digits, one after the other.**  Where the registry can be replaced, every
call is answered with the id that follows those that its table was given before, counting from the next id
in the file; entries of other tables keep their value and their place, and new ones stand behind them in
the order of their first call.  Where it cannot, every call fails and nothing changes. -/
theorem answers_of_allocateAll {d d' : Disk} {root : Path} {r : Registry} {calls : List (Text × Text)}
    {answers : List (Except StorageError Nat)} (h : d.readRegistry root = .ok r)
    (hplain : ∀ call ∈ calls, Plain call)
    (hsmall : ∀ call ∈ calls,
      r.next (countedAs call) + calls.countP (SamePair call) < UInt64.size)
    (ha : d.allocateAll root calls = (answers, d')) :
    answers.length = calls.length ∧
      (d.Replaceable root →
        (∀ before call after, calls = before ++ call :: after →
          answers[before.length]? = some
            (.ok (r.next (countedAs call) + before.countP (SamePair call)))) ∧
        ∃ r', d'.readRegistry root = .ok r' ∧
          (∀ (i : Nat) (c : Counter), r[i]? = some c → (∀ call ∈ calls, countedAs call ≠ c.pair) →
            r'[i]? = some c) ∧
          r'.pairs = r.pairs ++
            ((calls.map countedAs).filter fun p => p ∉ r.pairs).eraseDups ∧
          r' = r.after (calls.map countedAs)) ∧
      (¬ d.Replaceable root → (∀ answer ∈ answers, ∃ why, answer = .error why) ∧ d' = d) := by
  have hsuffices : r.Suffices (calls.map countedAs) := by
    intro p hp
    obtain ⟨call, hc, rfl⟩ := List.mem_map.mp hp
    rw [Registry.count_countedAs (hplain call hc) hplain]
    exact hsmall call hc
  have hlength := d.length_allocateAll root calls
  rw [ha] at hlength
  refine ⟨hlength, fun hr => ?_, fun hr => ?_⟩
  · obtain ⟨hids, hlast⟩ := Disk.allocateAll_of_replaceable h hr fun call hc =>
      (hplain call hc).legible
    rw [ha] at hids hlast
    rw [Registry.takeAll_snd hsuffices] at hlast
    refine ⟨fun before call after hcalls => ?_, _, hlast, fun i c hi hother => ?_, ?_, rfl⟩
    · have hc : call ∈ calls := by simp [hcalls]
      have hbefore : ∀ other ∈ before, Plain other :=
        fun other ho => hplain other (by simp [hcalls, ho])
      have hsplit : calls.map countedAs =
          before.map countedAs ++ countedAs call :: after.map countedAs := by
        rw [hcalls, List.map_append, List.map_cons]
      have hid := Registry.takeAll_fst hsuffices hsplit
      rw [List.length_map, Registry.count_countedAs (hplain call hc) hbefore] at hid
      change answers = _ at hids
      rw [hids, List.getElem?_map, hid]
      rfl
    · refine Registry.getElem?_after hi fun hm => ?_
      obtain ⟨call, hc, he⟩ := List.mem_map.mp hm
      exact hother call hc he
    · exact Registry.pairs_after r _
  · have hnone := Disk.allocateAll_of_not_replaceable h hr calls
    rwa [ha] at hnone

/-- A disk with a registry that was written by hand: a blank line, white space around a counter, a plus
sign, a pair with two counters and one in capitals. -/
def handmadeDisk : Disk :=
  .directory [("data".toList, .directory
    [(registryName, .file (toBytes "a:t:5\n \n  b:u:+3 \na:t:9\nA:t:7".toList))])]

/-- The counters in it. -/
def handmade : Registry :=
  [⟨"a".toList, "t".toList, 5⟩, ⟨"b".toList, "u".toList, 3⟩, ⟨"a".toList, "t".toList, 9⟩,
    ⟨"A".toList, "t".toList, 7⟩]

/-- Calls for two tables in turn, in any capitalization. -/
def turns : List (Text × Text) :=
  [("A".toList, "t".toList), ("c".toList, "1".toList), ("a".toList, "T".toList),
    ("C".toList, "1".toList)]

theorem answers_of_allocateAll_handmade :
    handmadeDisk.readRegistry (.ofText "data".toList) = .ok handmade ∧
      (∀ call ∈ turns, Plain call) ∧
      (∀ call ∈ turns, handmade.next (countedAs call) + turns.countP (SamePair call) < UInt64.size) ∧
      handmadeDisk.Replaceable (.ofText "data".toList) ∧
      (handmadeDisk.allocateAll (.ofText "data".toList) turns).1[2]? = some (.ok 6) ∧
      ∃ r, (handmadeDisk.allocateAll (.ofText "data".toList) turns).2.readRegistry
          (.ofText "data".toList) = .ok r ∧
        r[1]? = some ⟨"b".toList, "u".toList, 3⟩ := by
  have hread : handmadeDisk.readRegistry (.ofText "data".toList) = .ok handmade := by decide +kernel
  have hplain : ∀ call ∈ turns, Plain call := by decide +kernel
  have hsmall : ∀ call ∈ turns,
      handmade.next (countedAs call) + turns.countP (SamePair call) < UInt64.size := by
    decide +kernel
  have hr : handmadeDisk.Replaceable (.ofText "data".toList) := by
    refine ⟨⟨["data".toList], _, rfl, rfl⟩, fun hc => ?_⟩
    have hl : handmadeDisk.locate (.ofText "data".toList) = .ok ["data".toList] := rfl
    rw [Disk.registryPath, cramped_child_iff hl rfl] at hc
    revert hc
    decide +kernel
  obtain ⟨-, h, -⟩ := answers_of_allocateAll hread hplain hsmall rfl
  obtain ⟨hids, r, hlast, hkept, -⟩ := h hr
  refine ⟨hread, hplain, hsmall, hr, ?_, r, hlast, hkept 1 _ rfl (by decide +kernel)⟩
  exact (hids (turns.take 2) ("a".toList, "T".toList) [("C".toList, "1".toList)] rfl).trans
    (by decide +kernel)

/-- A way to spell `data` that is short enough for the registry and too long for a temporary file. -/
def narrowRoot : Text := (List.replicate 2028 "./".toList).flatten ++ "data".toList

/-- **Counters that can be read are not enough**: no id is handed out where the registry cannot be
replaced. -/
theorem allocate_narrowRoot :
    handmadeDisk.readRegistry (.ofText narrowRoot) = .ok handmade ∧
      (handmadeDisk.allocateAll (.ofText narrowRoot) [("a".toList, "t".toList)]).1 =
        [.error (.io .nameTooLong)] := by
  decide +kernel

/-! ### Names that are not legible -/

/-- Names that are not legible have no counter in a registry that was read. -/
theorem Registry.Readable.next_eq_one {r : Registry} (h : r.Readable) {database table : Text}
    (hp : ¬ Registry.Legible database table) : r.next (database, table) = 1 := by
  refine Registry.next_of_not_mem fun hm => hp ?_
  obtain ⟨c, hc, hpair⟩ := List.mem_map.mp hm
  cases hpair
  exact h.legible c hc

/-- An id was handed out from counters that could be read. -/
theorem Disk.readRegistry_of_allocate {d d' : Disk} {root : Path} {call : Text × Text} {id : Nat}
    (h : d.allocate root call.1 call.2 = (.ok id, d')) :
    ∃ r, d.readRegistry root = .ok r ∧ id = r.next (countedAs call) ∧ d'.Replaceable root ∧
      d'.readRegistry root = (Registry.decode (r.allocate call.1 call.2).2.encode).mapError
        (.corrupt (Disk.registryPath root).text) := by
  cases hr : d.readRegistry root with
  | error why =>
      unfold Disk.allocate at h
      rw [hr] at h
      cases h
  | ok r =>
      rcases Disk.allocate_cases hr call with ⟨-, why, ha⟩ | ⟨-, d₁, ha, hagain, hread⟩
      · cases h.symm.trans ha
      · cases h.symm.trans ha
        exact ⟨r, rfl, rfl, hagain, hread⟩

/-- **An id and the next one.**  After an id was handed out for two names, the one that follows it is handed
out for the same names exactly if they are legible in lower case.  For other names the id was the first one,
and it is handed out again, or what was stored cannot be read any more. -/
theorem allocate_again {d d' : Disk} {root : Path} {call : Text × Text} {id : Nat}
    (h : d.allocate root call.1 call.2 = (.ok id, d')) (hid : id < UInt64.size - 1) :
    ((d'.allocate root call.1 call.2).1 = .ok (id + 1) ↔
        Registry.Legible call.1.lowercase call.2.lowercase) ∧
      (¬ Registry.Legible call.1.lowercase call.2.lowercase → id = 1 ∧
        ((d'.allocate root call.1 call.2).1 = .ok 1 ∨
          ∃ what, (d'.allocate root call.1 call.2).1 =
            .error (.corrupt (Disk.registryPath root).text what))) := by
  obtain ⟨r, hread, rfl, hr', hread'⟩ := Disk.readRegistry_of_allocate h
  have hreadable := Disk.readable_of_readRegistry hread
  by_cases hl : Registry.Legible call.1.lowercase call.2.lowercase
  · refine ⟨iff_of_true ?_ hl, fun hnot => absurd hl hnot⟩
    rw [(hreadable.allocate hl).decode_encode] at hread'
    obtain ⟨d'', ha, -⟩ := Disk.allocate_of_legible hread' hr' hl
    rw [ha, Registry.allocate_eq_take, Registry.next_take hid, if_pos rfl]
  · have hagain : (d'.allocate root call.1 call.2).1 = .ok 1 ∨
        ∃ what, (d'.allocate root call.1 call.2).1 =
          .error (.corrupt (Disk.registryPath root).text what) := by
      cases hd : Registry.decode (r.allocate call.1 call.2).2.encode with
      | error what =>
          rw [hd] at hread'
          unfold Disk.allocate
          rw [hread']
          exact .inr ⟨what, rfl⟩
      | ok r' =>
          rw [hd] at hread'
          rcases Disk.allocate_cases hread' call with ⟨hnot, -⟩ | ⟨-, d'', ha, -⟩
          · exact absurd hr' hnot
          · have hone : r'.next (countedAs call) = 1 := (Registry.readable_of_decode hd).next_eq_one hl
            rw [ha, hone]
            exact .inl rfl
    have hone : r.next (countedAs call) = 1 := hreadable.next_eq_one hl
    refine ⟨iff_of_false (fun hnext => ?_) hl, fun _ => ⟨hone, hagain⟩⟩
    rw [hone] at hnext
    rcases hagain with hsame | ⟨what, hcorrupt⟩
    · cases hsame.symm.trans hnext
    · cases hcorrupt.symm.trans hnext

/-- A disk without a registry. -/
def bareDisk : Disk := .directory [("data".toList, .directory [])]

/-- Names with white space that is not at the start, and a table without a name. -/
theorem allocate_again_spaced :
    (bareDisk.allocate (.ofText "data".toList) "Ä \r".toList []).1 = .ok 1 ∧
      1 < UInt64.size - 1 ∧
      ((bareDisk.allocate (.ofText "data".toList) "Ä \r".toList []).2.allocate
        (.ofText "data".toList) "Ä \r".toList []).1 = .ok 2 := by
  have hfirst : (bareDisk.allocate (.ofText "data".toList) "Ä \r".toList []).1 = .ok 1 := by
    decide +kernel
  have hlegible : Registry.Legible (Text.lowercase "Ä \r".toList) (Text.lowercase []) := by
    decide +kernel
  have hagain := @allocate_again bareDisk _ (.ofText "data".toList) ("Ä \r".toList, []) 1
    (Prod.ext hfirst rfl) (by decide)
  exact ⟨hfirst, by decide, hagain.1.mpr hlegible⟩

/-- **Ids are handed out twice**, or not at all, for names that are not legible. -/
theorem allocateAll_illegible :
    (bareDisk.allocateAll (.ofText "data".toList)
        [(" a".toList, "t".toList), (" a".toList, "t".toList)]).1 = [.ok 1, .ok 1] ∧
      (bareDisk.allocateAll (.ofText "data".toList)
        [("a:b".toList, "t".toList), ("a:b".toList, "t".toList)]).1 =
          [.ok 1, .error (.corrupt "data/sequences.reg".toList (.counterLine 1))] := by
  decide +kernel

end FlatDb
