import FsServer.Client
import Mathlib.Data.Finmap

/-!
# What the file manager is for

A finite map from paths to bytes. A call either fails and leaves the map alone, or it inserts, looks
up, erases or moves one entry.
-/

namespace FsServer

open GoPath

abbrev FileStore := Finmap fun _ : Path => Bytes

namespace FileStore

def sibling (path name : Path) : Path := join ((segments path).dropLast ++ [name])

inductive Step (sha256 : Bytes → String) :
    FileStore → FileCall → Except FileError FileReply → FileStore → Prop
  | failed (store : FileStore) (call : FileCall) (cause : FileError) :
      Step sha256 store call (.error cause) store
  | upload {store : FileStore} {ctx : Context} {path : Path} {data : Bytes} {row : FileMetadata}
      (hsize : row.size = data.length) (hhash : row.hash = sha256 data) :
      Step sha256 store (.upload ctx path data) (.ok (.metadata row))
        (store.insert (normalizePath path) data)
  | uploadFromReader {store : FileStore} {ctx : Context} {path : Path} {reader : Reader}
      {row : FileMetadata} (hsize : row.size = reader.data.length)
      (hhash : row.hash = sha256 reader.data) :
      Step sha256 store (.uploadFromReader ctx path reader) (.ok (.metadata row))
        (store.insert (normalizePath path) reader.data)
  | download {store : FileStore} {path : Path} {content : Bytes}
      (hfound : store.lookup (normalizePath path) = some content) :
      Step sha256 store (.download path) (.ok (.content content)) store
  | downloadAt {store : FileStore} {path : Path} {size offset : Int} {content : Bytes}
      (hfound : store.lookup (normalizePath path) = some content) (hsize : 0 < size)
      (hoffset : 0 ≤ offset) :
      Step sha256 store (.downloadAt path size offset)
        (.ok (.content ((content.drop offset.toNat).take size.toNat))) store
  | getMetadata {store : FileStore} {path : Path} {content : Bytes} {row : FileMetadata}
      (hfound : store.lookup (normalizePath path) = some content)
      (hsize : row.size = content.length) (hhash : row.hash = sha256 content) :
      Step sha256 store (.getMetadata path) (.ok (.metadata row)) store
  | delete {store : FileStore} {ctx : Context} {path : Path} {content : Bytes}
      (hfound : store.lookup (normalizePath path) = some content) :
      Step sha256 store (.delete ctx path) (.ok .done) (store.erase (normalizePath path))
  | rename {store : FileStore} {ctx : Context} {oldPath newName : Path} {content : Bytes}
      (hfound : store.lookup (normalizePath oldPath) = some content)
      (hfree : store.lookup (sibling (normalizePath oldPath) newName) = none) :
      Step sha256 store (.rename ctx oldPath newName) (.ok .done)
        ((store.erase (normalizePath oldPath)).insert (sibling (normalizePath oldPath) newName)
          content)

end FileStore

end FsServer
