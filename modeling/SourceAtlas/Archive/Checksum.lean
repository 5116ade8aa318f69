namespace SourceAtlas.Archive

def checksumPolynomial : UInt32 := 0xEDB88320

def shiftOnce (c : UInt32) : UInt32 :=
  if c &&& 1 == 1 then (c >>> 1) ^^^ checksumPolynomial else c >>> 1

def checksumEntry (n : Nat) : UInt32 := (List.range 8).foldl (fun c _ => shiftOnce c) n.toUInt32

def checksumTable : Array UInt32 := Array.ofFn fun i : Fin 256 => checksumEntry i.val

def checksumStep (c : UInt32) (x : UInt8) : UInt32 :=
  checksumTable.getD ((c ^^^ x.toUInt32) &&& 0xFF).toNat 0 ^^^ (c >>> 8)

def checksum (b : ByteArray) : Nat := (b.foldl checksumStep 0xFFFFFFFF ^^^ 0xFFFFFFFF).toNat

end SourceAtlas.Archive
