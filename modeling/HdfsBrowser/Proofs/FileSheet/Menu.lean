import HdfsBrowser.Proofs.Page.Listing
import HdfsBrowser.Proofs.Session.Selection
import HdfsBrowser.Proofs.Settings.Update

/-!
# The block menu

The menu of a file has one entry for each block that the gateway lists.  The
entries go by offset, and blocks with one offset stay in the gateway's order;
an entry stands at the place that its index names.  A block that was read from
a JSON text always has a page.
-/

namespace HdfsBrowser

/-! ## Blocks by offset -/

namespace FileBlock

variable {b : FileBlock} {blocks sorted : List FileBlock}

/-- The same blocks by offset, those with one offset in the order that they had. -/
structure Orders (blocks sorted : List FileBlock) : Prop where
  perm : sorted.Perm blocks
  ascending : sorted.Pairwise (·.offset ≤ ·.offset)
  stable : ∀ offset, sorted.filter (·.offset = offset) = blocks.filter (·.offset = offset)

theorem insertByOffset_perm (b : FileBlock) (sorted : List FileBlock) :
    (insertByOffset b sorted).Perm (b :: sorted) := by
  induction sorted with
  | nil => exact .refl _
  | cons c sorted ih =>
      unfold insertByOffset
      split
      · exact .refl _
      · exact (ih.cons c).trans (.swap b c sorted)

theorem ascending_insertByOffset (h : sorted.Pairwise (·.offset ≤ ·.offset)) (b : FileBlock) :
    (insertByOffset b sorted).Pairwise (·.offset ≤ ·.offset) := by
  induction sorted with
  | nil => exact List.pairwise_singleton _ b
  | cons c sorted ih =>
      obtain ⟨hfirst, hrest⟩ := List.pairwise_cons.mp h
      unfold insertByOffset
      split
      · next hbefore =>
          refine List.pairwise_cons.mpr ⟨List.forall_mem_cons.mpr ⟨hbefore.le, ?_⟩, h⟩
          exact fun d hd => hbefore.le.trans (hfirst d hd)
      · next hbehind =>
          refine List.pairwise_cons.mpr ⟨fun d hd => ?_, ih hrest⟩
          rcases List.mem_cons.mp ((insertByOffset_perm b sorted).subset hd) with rfl | hd
          · exact Int.not_lt.mp hbehind
          · exact hfirst d hd

theorem filter_insertByOffset (h : sorted.Pairwise (·.offset ≤ ·.offset)) (b : FileBlock)
    (offset : Int) :
    (insertByOffset b sorted).filter (·.offset = offset) =
      sorted.filter (·.offset = offset) ++ [b].filter (·.offset = offset) := by
  induction sorted with
  | nil => rfl
  | cons c sorted ih =>
      obtain ⟨hfirst, hrest⟩ := List.pairwise_cons.mp h
      unfold insertByOffset
      split
      · next hbefore =>
          by_cases hoffset : b.offset = offset
          · have hnone : (c :: sorted).filter (·.offset = offset) = [] := by
              rw [List.filter_eq_nil_iff]
              intro d hd
              have hbehind : b.offset < d.offset := by
                rcases List.mem_cons.mp hd with rfl | hd
                · exact hbefore
                · exact hbefore.trans_le (hfirst d hd)
              simpa [← hoffset] using hbehind.ne'
            rw [List.filter_cons, hnone]
            simp [hoffset]
          · simp [List.filter_cons, hoffset]
      · rw [List.filter_cons, List.filter_cons, ih hrest]
        split <;> rfl

theorem Orders.insert (h : Orders blocks sorted) (b : FileBlock) :
    Orders (blocks ++ [b]) (insertByOffset b sorted) where
  perm := ((insertByOffset_perm b sorted).trans (h.perm.cons b)).trans
    (List.perm_append_singleton b blocks).symm
  ascending := ascending_insertByOffset h.ascending b
  stable offset := by
    rw [filter_insertByOffset h.ascending, h.stable, List.filter_append]

theorem orders_sortByOffset (blocks : List FileBlock) : Orders blocks (sortByOffset blocks) := by
  induction blocks using List.reverseRec with
  | nil => exact ⟨.refl _, .nil, fun _ => rfl⟩
  | append_singleton blocks b ih =>
      have hlast : sortByOffset (blocks ++ [b]) = insertByOffset b (sortByOffset blocks) :=
        List.foldl_append
      rw [hlast]
      exact ih.insert b

end FileBlock

/-! ## Pages of blocks -/

namespace Value

variable {v w : Value} {members : List (String × Value)}

theorem WellFormed.member (h : (Value.object members).WellFormed) (key : String)
    {default : Value} (hdefault : default.WellFormed) :
    (Value.member members key default).WellFormed := by
  unfold Value.member
  cases hfound : lookup? key members with
  | none => exact hdefault
  | some v => exact h.of_mem _ (mem_of_lookup? hfound)

theorem WellFormed.items (h : v.WellFormed) {vs : List Value} (hitems : v.items = .ok vs) :
    ∀ w ∈ vs, w.WellFormed := by
  cases h with
  | list h =>
      cases hitems
      exact h
  | str s =>
      cases hitems
      exact List.forall_mem_map.mpr fun c _ => .str _
  | object hkeys h =>
      cases hitems
      exact List.forall_mem_map.mpr fun m _ => .str _
  | _ => cases hitems

end Value

namespace FileBlock

structure IsPrintable (b : FileBlock) : Prop where
  offset : Numeral.Fits b.offset
  length : Numeral.Fits b.length
  hosts : ∀ host ∈ b.hosts, host.printable = true
  id : b.id.printable = true
  stamp : b.stamp.printable = true
  pool : b.pool.printable = true

variable {b : FileBlock} {located host : Value}

theorem wellFormed_of_hostOf (h : located.WellFormed) (hhost : hostOf located = .ok host) :
    host.WellFormed := by
  simp only [hostOf, bind_eq_ok_iff] at hhost
  obtain ⟨members, hmembers, hhost⟩ := hhost
  cases Value.asObject_eq_ok hmembers
  cases hhost
  split
  · exact h.member "hostName" Value.WellFormed.null
  · exact h.member "ipAddr" (Value.WellFormed.str "")

theorem isPrintable_of_located (h : located.WellFormed) (hblock : ofLocated located = .ok b) :
    b.IsPrintable := by
  simp only [ofLocated, bind_eq_ok_iff] at hblock
  obtain ⟨members, hmembers, locations, hlocations, hosts, hhosts, offset, hoffset, fields,
    hfields, length, hlength, hblock⟩ := hblock
  cases Value.asObject_eq_ok hmembers
  have hnone : (Value.object []).WellFormed := .object .nil (List.forall_mem_nil _)
  have hinner := h.member "block" hnone
  rw [Value.asObject_eq_ok hfields] at hinner
  have hlist : (Value.list []).WellFormed := .list (List.forall_mem_nil _)
  have hzero : (Value.int 0).WellFormed := .int (by decide +kernel)
  cases hblock
  exact {
    offset := Value.fits_of_asInteger (h.member "startOffset" hzero) hoffset
    length := Value.fits_of_asInteger (hinner.member "numBytes" hzero) hlength
    hosts := fun host hhost => by
      obtain ⟨location, hlocation, hhost⟩ := exists_of_mem_mapM hhosts hhost
      have hwell := (h.member "locations" hlist).items hlocations location hlocation
      exact (wellFormed_of_hostOf hwell hhost).printable
    id := (hinner.member "blockId" .null).printable
    stamp := (hinner.member "generationStamp" .null).printable
    pool := (hinner.member "blockPoolId" (.str "")).printable }

end FileBlock

namespace Page

theorem exists_orDash {v : Value} (h : v.printable = true) : ∃ t, orDash v = .ok t := by
  unfold orDash
  split
  · exact ⟨_, rfl⟩
  · exact ⟨_, Value.asText_of_printable h⟩

theorem exists_blockLines {item : BlockItem} (h : item.block.IsPrintable) :
    ∃ ts, blockLines item = .ok ts := by
  obtain ⟨id, hid⟩ := exists_orDash h.id
  obtain ⟨stamp, hstamp⟩ := exists_orDash h.stamp
  obtain ⟨offset, hoffset⟩ := (exists_number_iff _).mpr h.offset
  obtain ⟨length, hlength⟩ := (exists_number_iff _).mpr h.length
  obtain ⟨hosts, hhosts⟩ := exists_mapM_eq_ok_iff.mpr fun host hhost =>
    (⟨_, Value.asText_of_printable (h.hosts host hhost)⟩ : ∃ t, host.asText = .ok t)
  unfold blockLines
  simp only [hid, hstamp, hoffset, hlength, hhosts, Value.asText_of_printable h.pool]
  split <;> exact ⟨_, rfl⟩

theorem exists_text_block {item : BlockItem} (h : item.block.IsPrintable) :
    ∃ t, (Page.block item).text = .ok t := by
  obtain ⟨ts, hts⟩ := exists_blockLines h
  exact ⟨_, map_eq_ok_iff.mpr ⟨ts, hts, rfl⟩⟩

end Page

/-! ## Entries -/

namespace FileSheet

variable {sheet : FileSheet} {blocks : List FileBlock}

theorem map_block_menuFrom (index : Nat) (blocks : List FileBlock) :
    (menuFrom index blocks).map (·.block) = blocks := by
  induction blocks generalizing index with
  | nil => rfl
  | cons b blocks ih => rw [menuFrom, List.map_cons, ih, blockItem]

theorem getElem?_menuFrom (index : Nat) (blocks : List FileBlock) (k : Nat) :
    (menuFrom index blocks)[k]? = blocks[k]?.map (blockItem (index + k)) := by
  induction blocks generalizing index k with
  | nil => rfl
  | cons b blocks ih =>
      cases k with
      | zero => rfl
      | succ k =>
          rw [menuFrom, List.getElem?_cons_succ, List.getElem?_cons_succ, ih, Nat.add_right_comm,
            Nat.add_assoc]

/-- The menu of a file with these blocks, in the order in which the gateway lists them. -/
structure Presents (sheet : FileSheet) (blocks : List FileBlock) : Prop where
  hidden : sheet.length = 0 → sheet.showsBlocks = false ∧ sheet.menu = []
  visible : sheet.length ≠ 0 → sheet.showsBlocks = true
  complete : sheet.length ≠ 0 → FileBlock.Orders blocks (sheet.menu.map (·.block))
  numbered : ∀ (k : Nat) item, sheet.menu[k]? = some item →
    item.index = k ∧ item.label = "Block " ++ toString k

theorem presents_of_ofMap {path download : String} {map : BlockMap} {status : Option Entry}
    {chunk : Int} {sheet : FileSheet} {blocks : List FileBlock}
    (h : ofMap path download map status chunk = .ok sheet)
    (hblocks : map.blocks = FileBlock.sortByOffset blocks) : sheet.Presents blocks := by
  simp only [ofMap, bind_eq_ok_iff] at h
  obtain ⟨permissions, -, h⟩ := h
  cases h
  refine ⟨fun hempty => ⟨by simpa using hempty, if_pos hempty⟩, fun hfull => by simpa using hfull,
    fun hfull => ?_, fun k item hitem => ?_⟩
  · dsimp only [menuOf] at hfull ⊢
    rw [if_neg hfull, map_block_menuFrom, hblocks]
    exact FileBlock.orders_sortByOffset blocks
  · dsimp only [menuOf] at hitem
    split at hitem
    · cases hitem
    · rw [getElem?_menuFrom, Nat.zero_add] at hitem
      obtain ⟨b, -, rfl⟩ := Option.map_eq_some_iff.mp hitem
      exact ⟨rfl, rfl⟩

theorem Presents.mem (h : sheet.Presents blocks) {item : BlockItem} (hitem : item ∈ sheet.menu) :
    item.block ∈ blocks := by
  by_cases hempty : sheet.length = 0
  · simp [(h.hidden hempty).2] at hitem
  · exact (h.complete hempty).perm.mem_iff.mp (List.mem_map_of_mem hitem)

end FileSheet

theorem BlockMap.ofPayload_eq_ok {payload : Value} {map : BlockMap}
    (h : ofPayload payload = .ok map) :
    ∃ members located blocks, payload = .object members ∧
      (Value.member members "locatedBlocks" (.list [])).items = .ok located ∧
      located.mapM FileBlock.ofLocated = .ok blocks ∧
      (Value.member members "fileLength" (.int 0)).asInteger = .ok map.fileLength ∧
      map.blocks = FileBlock.sortByOffset blocks := by
  simp only [ofPayload, bind_eq_ok_iff] at h
  obtain ⟨members, hmembers, located, hlocated, blocks, hblocks, length, hlength, h⟩ := h
  cases h
  exact ⟨members, located, blocks, Value.asObject_eq_ok hmembers, hlocated, hblocks, hlength, rfl⟩

theorem FileBlock.isPrintable_of_mem {members : List (String × Value)} {located : List Value}
    {blocks : List FileBlock}
    (hlocated : (Value.member members "locatedBlocks" (.list [])).items = .ok located)
    (hblocks : located.mapM FileBlock.ofLocated = .ok blocks)
    (hpayload : (Value.object members).WellFormed) {b : FileBlock} (hb : b ∈ blocks) :
    b.IsPrintable := by
  obtain ⟨described, hdescribed, hb⟩ := exists_of_mem_mapM hblocks hb
  have hnone : (Value.list []).WellFormed := .list (List.forall_mem_nil _)
  exact isPrintable_of_located
    ((hpayload.member "locatedBlocks" hnone).items hlocated described hdescribed) hb

namespace Activity

theorem showBlock_of_item {sheet : FileSheet} {index : Int} {item : BlockItem}
    (hindex : 0 ≤ index) (hitem : sheet.menu[index.toNat]? = some item) (c : Console) :
    showBlock c sheet index = display c none (.block item) (.flag true) := by
  unfold showBlock
  rw [if_neg (Int.not_lt.mpr hindex), hitem]

theorem showBlock_of_none {sheet : FileSheet} {index : Int}
    (houtside : index < 0 ∨ sheet.menu.length ≤ index) (c : Console) :
    showBlock c sheet index = (c, .finished (.flag false)) := by
  have hnone : (if index < 0 then none else sheet.menu[index.toNat]?) = none := by
    split
    · rfl
    · rw [List.getElem?_eq_none_iff]
      omega
  unfold showBlock
  rw [hnone]
  rfl

end Activity

/-- The menu has one entry for each block that the gateway lists, by offset and otherwise in the
gateway's order; an empty file has none.  Showing an index of the menu shows the entry with that
index, and any other index shows nothing. -/
theorem menu_follows_offsets {payload : Value} {map : BlockMap}
    (hmap : BlockMap.ofPayload payload = .ok map) {status : Option Entry}
    {permissions : Option Permission.Flags} (hflags : FileSheet.flagsOf status = .ok permissions)
    (path download : String) (chunk : Int) :
    ∃ sheet members located blocks,
      FileSheet.ofMap path download map status chunk = .ok sheet ∧
      payload = .object members ∧
      (Value.member members "locatedBlocks" (.list [])).items = .ok located ∧
      List.Forall₂ (fun described b => FileBlock.ofLocated described = .ok b) located blocks ∧
      (Value.member members "fileLength" (.int 0)).asInteger = .ok sheet.length ∧
      sheet.Presents blocks ∧
      ∀ (c : Console) (index : Int),
        (index < 0 ∨ sheet.menu.length ≤ index →
          Activity.begin c (.showBlock sheet index) = (c, .finished (.flag false))) ∧
        (0 ≤ index → index < sheet.menu.length → ∃ item ∈ sheet.menu, item.index = index ∧
          (Activity.begin c (.showBlock sheet index)).1.screen.shown = some (.block item) ∧
          (payload.WellFormed → ∃ text, (Page.block item).text = .ok text ∧
            Activity.begin c (.showBlock sheet index) =
              (c.setScreen { c.screen with
                shown := some (.block item), written := c.screen.written ++ [.page text] },
                .finished (.flag true)))) := by
  obtain ⟨members, located, blocks, rfl, hlocated, hblocks, hlength, hsorted⟩ :=
    BlockMap.ofPayload_eq_ok hmap
  obtain ⟨sheet, hsheet, hsheetLength⟩ : ∃ sheet,
      FileSheet.ofMap path download map status chunk = .ok sheet ∧
        sheet.length = map.fileLength := by
    rw [FileSheet.ofMap, hflags]
    exact ⟨_, rfl, rfl⟩
  have hpresents := FileSheet.presents_of_ofMap hsheet hsorted
  refine ⟨sheet, members, located, blocks, hsheet, rfl, hlocated, mapM_eq_ok_iff.mp hblocks,
    hsheetLength ▸ hlength, hpresents, fun c index => ⟨fun houtside => ?_, fun hlow hhigh => ?_⟩⟩
  · exact Activity.showBlock_of_none houtside c
  · have hplace : index.toNat < sheet.menu.length := by omega
    have hitem := List.getElem?_eq_getElem hplace
    have hmem : sheet.menu[index.toNat] ∈ sheet.menu := List.getElem_mem hplace
    have hshown := Activity.showBlock_of_item hlow hitem c
    have hindex := (hpresents.numbered _ _ hitem).1
    refine ⟨_, hmem, by omega, ?_, fun hpayload => ?_⟩
    · rw [Activity.begin, hshown]
      exact Activity.shown_showPage c.screen _
    · obtain ⟨text, htext⟩ := Page.exists_text_block
        (FileBlock.isPrintable_of_mem hlocated hblocks hpayload (hpresents.mem hmem))
      refine ⟨text, htext, ?_⟩
      rw [Activity.begin, hshown, Activity.display, Console.showPage_of_text c htext]
      rfl

theorem menu_follows_offsets_of_tie :
    let text := "\x7b\"fileLength\":3,\"locatedBlocks\":[" ++
      "\x7b\"startOffset\":1,\"block\":\x7b\"blockId\":7\x7d\x7d,\x7b\x7d," ++
      "\x7b\"startOffset\":1,\"block\":\x7b\"blockId\":8\x7d\x7d]\x7d"
    let block (offset : Int) (id : Value) : FileBlock := ⟨offset, 0, [], id, .null, .str ""⟩
    let map : BlockMap := ⟨3, [block 0 .null, block 1 (.int 7), block 1 (.int 8)]⟩
    let sheet : FileSheet := ⟨"/f", "File information - f", "", 3, true, ⟨2, 3⟩,
      [⟨0, "Block 0", block 0 .null⟩, ⟨1, "Block 1", block 1 (.int 7)⟩,
        ⟨2, "Block 2", block 1 (.int 8)⟩], none, none⟩
    ∃ payload, Json.parse text = .ok payload ∧ BlockMap.ofPayload payload = .ok map ∧
      FileSheet.flagsOf none = .ok none ∧ FileSheet.ofMap "/f" "" map none 1 = .ok sheet ∧
      ∀ c : Console, ∃ written, Activity.begin c (.showBlock sheet 2) =
        (c.setScreen { c.screen with
          shown := some (.block ⟨2, "Block 2", block 1 (.int 8)⟩)
          written := c.screen.written ++ [.page written] }, .finished (.flag true)) := by
  intro text block map sheet
  obtain ⟨payload, hparse, hmap⟩ :
      ∃ payload, Json.parse text = .ok payload ∧ BlockMap.ofPayload payload = .ok map := by
    cases hparse : Json.parse text with
    | error why =>
        have hreads : (Json.parse text).isOk = true := by decide +kernel
        simp [hparse, Except.isOk, Except.toBool] at hreads
    | ok payload =>
        have hmap : (Json.parse text).toOption.map BlockMap.ofPayload = some (.ok map) := by
          decide +kernel
        exact ⟨payload, rfl, by simpa [hparse, Except.toOption] using hmap⟩
  have hflags : FileSheet.flagsOf none = .ok none := rfl
  have hsheet : FileSheet.ofMap "/f" "" map none 1 = .ok sheet := by decide +kernel
  refine ⟨payload, hparse, hmap, hflags, hsheet, fun c => ?_⟩
  obtain ⟨found, members, located, blocks, hfound, -, -, -, -, -, hshow⟩ :=
    menu_follows_offsets hmap hflags "/f" "" 1
  obtain rfl : sheet = found := Except.ok.inj (hsheet.symm.trans hfound)
  obtain ⟨item, hitem, hindex, -, hwritten⟩ := (hshow c 2).2 (by decide) (by decide)
  obtain ⟨written, -, hbegin⟩ := hwritten (Json.wellFormed_of_parse hparse)
  have hthird : item = ⟨2, "Block 2", block 1 (.int 8)⟩ := by
    simp only [sheet, List.mem_cons, List.not_mem_nil, or_false] at hitem
    rcases hitem with rfl | rfl | rfl
    · cases hindex
    · cases hindex
    · rfl
  exact ⟨written, hthird ▸ hbegin⟩

end HdfsBrowser
