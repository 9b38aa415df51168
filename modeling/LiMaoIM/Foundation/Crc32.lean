import LiMaoIM.Foundation.Bytes

namespace LiMaoIM.Crc32

def polynomial : UInt32 := 0xEDB88320

def shift (crc : UInt32) : UInt32 :=
  if crc &&& 1 = 1 then (crc >>> 1) ^^^ polynomial else crc >>> 1

def update (crc : UInt32) (b : UInt8) : UInt32 := shift^[8] (crc ^^^ b.toUInt32)

def checksumIEEE (bs : Bytes) : UInt32 := ~~~ (bs.foldl update 0xFFFFFFFF)

example : checksumIEEE (Bytes.ofString "123456789") = 0xCBF43926 := by decide +kernel

end LiMaoIM.Crc32
