import DHCPServer.Gui.Inspect
import DHCPServer.Server.DatabaseLog
import DHCPServer.Server.Startup

namespace DHCPServer

/-- A transaction id and a hardware address as the file of the client is named after them. -/
def keyText (k : UInt32 × Mac) : CString × CString := (hexText 8 k.1.toNat, macText k.2)

/-- The client is one of those that the filter of the page looks for. -/
def PassesFilter (t : TabInspect) (k : UInt32 × Mac) : Prop :=
  1 < t.filterContent.length →
    if t.filterByMac then t.filterContent.filter (· ≠ ':') <:+: macText k.2
    else t.filterContent <:+: hexText 8 k.1.toNat

instance (t : TabInspect) (k : UInt32 × Mac) : Decidable (PassesFilter t k) :=
  inferInstanceAs (Decidable (_ → _))

/-- The client that a message of the history belongs to. -/
def clientOf (r : Nat × Message) : UInt32 × Mac := (r.2.xid, r.2.mac)

section Paths

variable {t : TabInspect} {k k' : UInt32 × Mac}

/-- The page finds its way back from the texts to the file. -/
theorem entryPath_keyText (k : UInt32 × Mac) : entryPath (keyText k) = databasePath k.1 k.2 := rfl

theorem length_directory : "/var/dhcp/database/".toList.length = 19 := by decide +kernel

theorem length_databasePath (k : UInt32 × Mac) : (databasePath k.1 k.2).length = 45 := by
  unfold databasePath
  rw [List.length_append, List.length_append, List.length_append, List.length_append,
    length_directory, length_hexText, length_macText]
  decide +kernel

theorem substr_xid (k : UInt32 × Mac) :
    substr (databasePath k.1 k.2) 19 8 = .ok (hexText 8 k.1.toNat) := by
  have hlen := length_databasePath k
  rw [substr, if_neg (by omega)]
  unfold databasePath
  rw [List.append_assoc, List.append_assoc,
    List.append_assoc, List.drop_left' length_directory,
    List.take_left' (length_hexText _ _)]

theorem substr_mac (k : UInt32 × Mac) :
    substr (databasePath k.1 k.2) 28 12 = .ok (macText k.2) := by
  have hlen := length_databasePath k
  have hfront : ("/var/dhcp/database/".toList ++ hexText 8 k.1.toNat ++ "_".toList).length = 28 := by
    rw [List.length_append, List.length_append, length_directory, length_hexText]
    decide +kernel
  rw [substr, if_neg (by omega)]
  unfold databasePath
  rw [List.append_assoc, List.drop_left' hfront,
    List.take_left' (length_macText _)]

theorem passesFilter_path (t : TabInspect) (k : UInt32 × Mac) :
    passesFilter t (databasePath k.1 k.2) = .ok (decide (PassesFilter t k)) := by
  unfold passesFilter PassesFilter
  rw [substr_xid, substr_mac]
  by_cases hlong : 1 < t.filterContent.length
  · by_cases hmac : t.filterByMac = true
    · simp [hlong, hmac, bind, Except.bind, pure, Except.pure]
    · simp [hlong, hmac, bind, Except.bind, pure, Except.pure]
  · simp [hlong, pure, Except.pure]

/-- The page lists the files of the clients that the filter looks for, in the order of the
directory. -/
theorem listTransactions_paths (t : TabInspect) (keys : List (UInt32 × Mac)) :
    listTransactions t (keys.map fun k => databasePath k.1 k.2) =
      .ok ((keys.filter fun k => decide (PassesFilter t k)).map keyText) := by
  induction keys with
  | nil => rfl
  | cons k keys ih =>
    rw [List.map_cons, listTransactions, passesFilter_path, ih]
    by_cases hk : PassesFilter t k
    · simp only [hk, decide_true, List.filter_cons_of_pos, substr_xid, substr_mac]
      rfl
    · simp only [hk, decide_false, Bool.false_eq_true, not_false_eq_true,
        List.filter_cons_of_neg]
      rfl

end Paths

section Entry

variable {messages : List (Nat × Message)}

/-- A file of records is loaded as their entries. -/
theorem databaseLoadEntry_records {files : DatabaseFiles} {path : CString}
    (hfile : (files path).getD [] = messages.flatMap fun r => storedRecord r.1 r.2)
    (htime : ∀ r ∈ messages, r.1 < 2 ^ 32)
    (hcookie : ∀ r ∈ messages, field32 r.2.packet 236 = magicCookie) :
    ∃ entries, databaseLoadEntry files path = .ok entries ∧
      List.Forall₂ EntryOf messages entries := by
  have hlength : messages.length ≤ (messages.flatMap fun r => storedRecord r.1 r.2).length := by
    rw [List.length_flatMap]
    simp only [length_storedRecord, List.map_const', List.sum_replicate, metadataLen, packetSize]
    rw [smul_eq_mul]
    omega
  rw [← hfile] at hlength
  cases hopen : files path with
  | none =>
    rw [hopen] at hlength
    obtain rfl : messages = [] := List.eq_nil_of_length_eq_zero (Nat.le_zero.mp hlength)
    exact ⟨[], by rw [databaseLoadEntry, hopen], .nil⟩
  | some file =>
    rw [hopen, Option.getD_some] at hfile hlength
    obtain ⟨entries, hentries, hrun⟩ := load_records htime hcookie (Nat.lt_succ_of_le hlength) []
    rw [← hfile] at hrun
    exact ⟨entries, by rw [databaseLoadEntry, hopen]; simp only [hrun, List.nil_append], hentries⟩

end Entry

section Log

variable {s s' : Server} {files' : DatabaseFiles} {events : List Event} {directory : List CString}

/-- The files of a run that has started with none are those of the clients of its history. -/
theorem logged_isSome (hs : s.transCache.Sound)
    (hrun : events.foldlM (serveLogging true) (s, fun _ => none) = .ok (s', files')) {path : CString} :
    (files' path).isSome ↔
      ∃ k ∈ (history s events).map clientOf, databasePath k.1 k.2 = path := by
  rw [(serveLogging_run hs hrun).2, databaseStoreAll_isSome]
  simp [clientOf]

/-- A file of such a run is loaded as the messages that its client has exchanged. -/
theorem logged_load (hs : s.transCache.Sound)
    (hrun : events.foldlM (serveLogging true) (s, fun _ => none) = .ok (s', files'))
    (k : UInt32 × Mac) :
    ∃ entries, databaseLoadEntry files' (databasePath k.1 k.2) = .ok entries ∧
      List.Forall₂ EntryOf (ofClient k.1 k.2 (history s events)) entries := by
  apply databaseLoadEntry_records
  · rw [(serveLogging_run hs hrun).2, databaseStoreAll_key, ← ofClient]
    rw [databaseStoreAll_file fun r hr => by simpa using (List.mem_filter.mp hr).2]
    rfl
  · exact fun r hr => history_time (List.mem_filter.mp hr).1
  · exact fun r hr => history_cookie hs (List.mem_filter.mp hr).1

/-- The page over the database of a run: it lists each client that the filter looks for once, reads
the directory without a fault exactly when the selected entry is listed, and then loads the
messages that the client of this entry has exchanged with the server, in their order. -/
theorem inspect_shows_log (hs : Started s)
    (hrun : events.foldlM (serveLogging true) (s, fun _ => none) = .ok (s', files'))
    (hdir : ∀ path, path ∈ directory ↔ (files' path).isSome) (honce : directory.Nodup)
    (t : TabInspect) :
    ∃ clients : List (UInt32 × Mac), clients.Nodup ∧
      (∀ k, k ∈ clients ↔ k ∈ (history s events).map clientOf ∧ PassesFilter t k) ∧
      ((∃ t', reload directory files' t = .ok t') ↔
        clients = [] ∨ selectedAfter directory t < clients.length) ∧
      ∀ t', reload directory files' t = .ok t' →
        t'.transactionEntries = clients.map keyText ∧
        ∀ k, clients[t'.transactionEntrySelected]? = some k →
          ∃ entries, List.Forall₂ EntryOf (ofClient k.1 k.2 (history s events)) entries ∧
            t'.loadedTransaction = entries.map DatabaseMessage.spaced := by
  have hsound : s.transCache.Sound := by
    obtain ⟨cfg, files, now, rfl⟩ := hs
    exact startup_sound cfg files now
  have hpaths := @logged_isSome _ _ _ _ hsound hrun
  -- the directory consists of the paths of the clients
  obtain ⟨keys, rfl⟩ : ∃ keys : List (UInt32 × Mac),
      keys.map (fun k => databasePath k.1 k.2) = directory := by
    rw [← Set.mem_range, Set.range_list_map]
    intro path hpath
    obtain ⟨k, -, hk⟩ := hpaths.mp ((hdir path).mp hpath)
    exact ⟨k, hk⟩
  have hkeys : ∀ k, k ∈ keys ↔ k ∈ (history s events).map clientOf := by
    intro k
    have hpath : databasePath k.1 k.2 ∈ keys.map (fun k => databasePath k.1 k.2) ↔
        ∃ k' ∈ (history s events).map clientOf, databasePath k'.1 k'.2 = databasePath k.1 k.2 :=
      (hdir _).trans hpaths
    have hsame {k' : UInt32 × Mac} (h : databasePath k'.1 k'.2 = databasePath k.1 k.2) : k' = k :=
      Prod.ext (databasePath_inj h).1 (databasePath_inj h).2
    constructor
    · intro hk
      obtain ⟨k', hk', heq⟩ := hpath.mp (List.mem_map_of_mem hk)
      exact hsame heq ▸ hk'
    · intro hk
      obtain ⟨k', hk', heq⟩ := List.mem_map.mp (hpath.mpr ⟨k, hk, rfl⟩)
      exact hsame heq ▸ hk'
  have hlist := listTransactions_paths t keys
  have hload := logged_load hsound hrun
  refine ⟨keys.filter fun k => decide (PassesFilter t k), (honce.of_map _).filter _, ?_, ?_, ?_⟩
  · intro k
    rw [List.mem_filter, hkeys, decide_eq_true_iff]
  · rw [reload_isOk hlist ?_, List.map_eq_nil_iff, List.length_map]
    intro entry hentry
    obtain ⟨k, -, rfl⟩ := List.mem_map.mp hentry
    obtain ⟨messages, hmessages, -⟩ := hload k
    exact ⟨messages, hmessages⟩
  · intro t' h
    obtain ⟨entries, hlist', hr⟩ := reload_spec h
    obtain rfl := Except.ok.inj (hlist.symm.trans hlist')
    refine ⟨hr.transactionEntries, fun k hk => ?_⟩
    rw [hr.transactionEntrySelected] at hk
    have hne : (keys.filter fun k => decide (PassesFilter t k)).map keyText ≠ [] := by
      rintro hnil
      rw [List.map_eq_nil_iff] at hnil
      rw [hnil] at hk
      cases hk
    obtain ⟨entry, messages, hentry, hmessages, hloaded⟩ := hr.loadedTransaction hne
    rw [List.getElem?_map, hk, Option.map_some, Option.some.injEq] at hentry
    obtain ⟨messages', hmessages', hall⟩ := hload k
    rw [← hentry, entryPath_keyText, hmessages'] at hmessages
    obtain rfl := Except.ok.inj hmessages
    exact ⟨messages', hall, hloaded⟩

end Log

/-- The first client of the small network, with the transaction id 7. -/
def firstClient : UInt32 × Mac := (7, (Buffer.zero 6).write 0 [2, 0, 0, 0, 0, 1])

/-- After a DISCOVER has been answered the page lists its client and shows both messages. -/
theorem inspect_shows_discover : ∃ x t',
    [discoverBy 1001 7 1].foldlM (serveLogging true) (smallServer, fun _ => none) = .ok x ∧
      reload [databasePath firstClient.1 firstClient.2] x.2 tabInspectNew = .ok t' ∧
      t'.transactionEntries = [keyText firstClient] ∧ t'.loadedTransaction.length = 2 := by
  obtain ⟨x, hrun⟩ := isOk_eq_true.mp (show ([discoverBy 1001 7 1].foldlM (serveLogging true)
    (smallServer, fun _ => none)).isOk = true by decide +kernel)
  have hclients : (history smallServer [discoverBy 1001 7 1]).map clientOf =
      [firstClient, firstClient] := by decide +kernel
  have hsound : smallServer.transCache.Sound := startup_sound _ _ _
  have hdir : ∀ path, path ∈ [databasePath firstClient.1 firstClient.2] ↔ (x.2 path).isSome := by
    intro path
    rw [logged_isSome hsound hrun, hclients]
    simp [eq_comm]
  obtain ⟨clients, hnodup, hmem, hreads, hshows⟩ :=
    inspect_shows_log smallServer_started hrun hdir (List.nodup_singleton _) tabInspectNew
  have hclient : ∀ k, k ∈ clients ↔ k ∈ [firstClient] := by
    intro k
    have hpasses : PassesFilter tabInspectNew k := fun h => absurd h (by decide)
    rw [hmem, hclients]
    simp [hpasses]
  obtain rfl : clients = [firstClient] := List.perm_singleton.mp
    ((List.perm_ext_iff_of_nodup hnodup (List.nodup_singleton _)).mpr hclient)
  obtain ⟨t', ht'⟩ := hreads.mpr (.inr (by decide))
  obtain ⟨hentries, hloaded⟩ := hshows t' ht'
  refine ⟨x, t', hrun, ht', hentries, ?_⟩
  obtain ⟨entries, -, hr⟩ := reload_spec ht'
  obtain ⟨messages, hall, hmap⟩ := hloaded firstClient (by rw [hr.transactionEntrySelected]; rfl)
  rw [hmap, List.length_map, ← hall.length_eq]
  decide +kernel

end DHCPServer
